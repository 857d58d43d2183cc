import Ifconfigd.Lib.Yacc

/-!
# What a step of the parser can do

`Effect` lists the ways in which a step of `yyparse` can go on, with the guards of
each: a token is fetched, a symbol is shifted, a rule is reduced, or an error is
treated. Invariants of runs are proved from it, one constructor at a time.

A scope is what lies between the reduction that pushed a marked state and the moment
that state is popped. `Scope.within` is the rule for what holds inside: it holds when
the scope is opened, and whatever happens above the marked state keeps it.
-/

namespace Yacc

variable {T V C : Type*} (t : Tables T) (c : Client T V C)

/-- The next step reduces by rule `n`. -/
structure Reducing (p : State T V C) (n : Nat) : Prop where
  accepting : p.accepting = false
  rule : t.defred (top p.stack) = some n ∨
    t.defred (top p.stack) = none ∧
      ∃ a, p.look = some a ∧ t.shift (top p.stack) a = none ∧ t.reduce (top p.stack) a = some n

/-- The next step treats an error, after `YYERROR` in an action or before a token that
does not fit; `x` is the client's state once the error was reported. -/
inductive Erring (p : State T V C) : C → Prop
  | action {n : Nat} {x : C} (hred : Reducing t p n)
      (hact : c.action n (p.stack.map Prod.snd) p.client = .error x) : Erring p x
  | token {a : T} (hacc : p.accepting = false) (hdef : t.defred (top p.stack) = none)
      (hlook : p.look = some a) (hshift : t.shift (top p.stack) a = none)
      (hreduce : t.reduce (top p.stack) a = none) :
      Erring p (if p.errflag = 0 then c.syntaxError p.client else p.client)

/-- The states a step can lead to. -/
inductive Effect (p : State T V C) : State T V C → Prop
  | fetch (h : Calls t p) : Effect p (fetch c p)
  | resume {a : T} (hacc : p.accepting = true) (hlook : p.look = some a) (hne : a ≠ t.eof) :
      Effect p { p with accepting := false }
  | shift {a : T} {st : Nat} (hacc : p.accepting = false)
      (hdef : t.defred (top p.stack) = none) (hlook : p.look = some a)
      (hshift : t.shift (top p.stack) a = some st) :
      Effect p { p with
        stack := (st, c.lval p.client) :: p.stack
        look := none
        errflag := p.errflag - 1 }
  | goal {n : Nat} {v : V} {x : C} (hred : Reducing t p n)
      (hact : c.action n (p.stack.map Prod.snd) p.client = .ok v x)
      (hgoal : top (p.stack.drop (t.len n)) = 0 ∧ t.goal n) :
      Effect p { p with
        stack := (t.final, v) :: p.stack.drop (t.len n), accepting := true, client := x }
  | reduce {n : Nat} {v : V} {x : C} (hred : Reducing t p n)
      (hact : c.action n (p.stack.map Prod.snd) p.client = .ok v x)
      (hgoal : ¬(top (p.stack.drop (t.len n)) = 0 ∧ t.goal n)) :
      Effect p { p with
        stack := (t.goto n (top (p.stack.drop (t.len n))), v) :: p.stack.drop (t.len n)
        client := x }
  | recover {x : C} {rest : List (Nat × V)} {st : Nat} (herr : Erring t c p x)
      (hflag : p.errflag < 3) (hpop : popToError t p.stack = some (rest, st)) :
      Effect p { p with stack := (st, c.lval x) :: rest, errflag := 3, client := x }
  | discard {x : C} (herr : Erring t c p x) (hflag : 3 ≤ p.errflag)
      (hlook : p.look ≠ some t.eof) : Effect p { p with look := none, client := x }

variable {t c}

theorem Reducing.reduces {p : State T V C} {n : Nat} (h : Reducing t p n) :
    t.Reduces (top p.stack) n := by
  rcases h.rule with hdef | ⟨-, a, -, -, hreduce⟩
  · exact .inl hdef
  · exact .inr ⟨a, hreduce⟩

theorem Erring.accepting {p : State T V C} {x : C} (h : Erring t c p x) : p.accepting = false := by
  cases h with
  | action hred => exact hred.accepting
  | token hacc => exact hacc

section Effect

variable [DecidableEq T]

theorem recover_effect {p q : State T V C} {x : C} (herr : Erring t c p x)
    (h : Yacc.recover t c { p with client := x } = .run q) : Effect t c p q := by
  rw [Yacc.recover.eq_def] at h
  split at h
  · next hflag =>
      split at h
      · cases h
      · next rest st hpop =>
          cases push_run h
          exact .recover herr hflag hpop
  · next hflag =>
      split at h
      · cases h
      · next hlook =>
          cases h
          exact .discard herr (Nat.le_of_not_lt hflag) hlook

theorem reduce_effect {p q : State T V C} {n : Nat} (hred : Reducing t p n)
    (h : Yacc.reduce t c n p = .run q) : Effect t c p q := by
  rw [Yacc.reduce.eq_def] at h
  split at h
  · cases h
  · next x hact => exact recover_effect (.action hred hact) h
  · next v x hact =>
      simp only at h
      split at h
      · next hgoal =>
          cases h
          exact .goal hred hact hgoal
      · next hgoal =>
          cases push_run h
          exact .reduce hred hact hgoal

/-- Every step that goes on has one of the effects. -/
theorem step_effect {p q : State T V C} (h : step t c p = .run q) : Effect t c p q := by
  by_cases hcall : Calls t p
  · rw [step_of_calls hcall] at h
    cases h
    exact .fetch hcall
  obtain ⟨stack, look, errflag, accepting, client⟩ := p
  cases accepting with
  | true =>
      cases look with
      | none => exact absurd ⟨rfl, .inl rfl⟩ hcall
      | some a =>
          simp only [step] at h
          split at h
          · cases h
          · next hne =>
              cases h
              exact .resume rfl rfl hne
  | false =>
      cases hdef : t.defred (top stack) with
      | some n =>
          simp only [step, hdef] at h
          exact reduce_effect ⟨rfl, .inl hdef⟩ h
      | none =>
          cases look with
          | none => exact absurd ⟨rfl, .inr hdef⟩ hcall
          | some a =>
              simp only [step, hdef] at h
              split at h
              · next st _ hshift =>
                  cases push_run h
                  exact .shift rfl hdef rfl hshift
              · next n hshift hreduce =>
                  exact reduce_effect ⟨rfl, .inr ⟨hdef, a, rfl, hshift, hreduce⟩⟩ h
              · next hshift hreduce =>
                  refine recover_effect (.token rfl hdef rfl hshift hreduce) ?_
                  split at h
                  · next hflag =>
                      rw [if_pos hflag]
                      exact h
                  · next hflag =>
                      rw [if_neg hflag]
                      exact h

omit [DecidableEq T] in
theorem Reducing.unique {p : State T V C} {n m : Nat} (hn : Reducing t p n)
    (hm : Reducing t p m) : n = m := by
  rcases hn.rule with hn | ⟨hdef, a, hlook, -, hn⟩ <;>
    rcases hm.rule with hm | ⟨hdef', b, hlook', -, hm⟩
  all_goals simp_all

/-- What a step does to the client: a reduction runs its action, every other step calls
at most the lexer or reports an error. -/
theorem step_client {p q : State T V C} (h : step t c p = .run q) :
    (∃ n, Reducing t p n ∧
        ((∃ v, c.action n (p.stack.map Prod.snd) p.client = .ok v q.client) ∨
          c.action n (p.stack.map Prod.snd) p.client = .error q.client)) ∨
      (∀ n, ¬Reducing t p n) ∧
        (q.client = p.client ∨ q.client = (c.lex p.client).2 ∨
          q.client = c.syntaxError p.client) := by
  have herring : ∀ {x}, Erring t c p x →
      (∃ n, Reducing t p n ∧
        ((∃ v, c.action n (p.stack.map Prod.snd) p.client = .ok v x) ∨
          c.action n (p.stack.map Prod.snd) p.client = .error x)) ∨
      (∀ n, ¬Reducing t p n) ∧
        (x = p.client ∨ x = (c.lex p.client).2 ∨ x = c.syntaxError p.client) := by
    intro x herr
    cases herr with
    | @action n _ hred hact => exact .inl ⟨n, hred, .inr hact⟩
    | token hacc hdef hlook hshift hreduce =>
        refine .inr ⟨?_, by split <;> simp⟩
        rintro n ⟨-, hrule | ⟨-, b, hlook', -, hred⟩⟩ <;> simp_all
  cases step_effect h with
  | fetch hcalls =>
      refine .inr ⟨?_, .inr (.inl rfl)⟩
      rintro n ⟨hacc, hrule⟩
      obtain ⟨hlook, hcall⟩ := hcalls
      rcases hrule with hrule | ⟨-, b, hlook', -⟩ <;> simp_all
  | resume hacc =>
      refine .inr ⟨?_, .inl rfl⟩
      rintro n ⟨hacc', -⟩
      simp_all
  | shift hacc hdef hlook hshift =>
      refine .inr ⟨?_, .inl rfl⟩
      rintro n ⟨-, hrule | ⟨-, b, hlook', hshift', -⟩⟩ <;> simp_all
  | @goal n v _ hred hact => exact .inl ⟨n, hred, .inl ⟨v, hact⟩⟩
  | @reduce n v _ hred hact => exact .inl ⟨n, hred, .inl ⟨v, hact⟩⟩
  | recover herr => exact herring herr
  | discard herr => exact herring herr

/-- The states of the client in which a step finds the stack full: before a shift, after
a reduction, or after an error. -/
inductive Pushing (t : Tables T) (c : Client T V C) (p : State T V C) : C → Prop
  | shift : Pushing t c p p.client
  | reduce {n : Nat} {v : V} {x : C} (hred : Reducing t p n)
      (hact : c.action n (p.stack.map Prod.snd) p.client = .ok v x) : Pushing t c p x
  | error {x : C} (herr : Erring t c p x) : Pushing t c p x

/-- A step that goes on without a call of the lexer leaves one of these states. -/
theorem pushing_of_run {p q : State T V C} (h : step t c p = .run q) (hcalls : ¬Calls t p) :
    Pushing t c p q.client := by
  cases step_effect h with
  | fetch hc => exact absurd hc hcalls
  | resume | shift => exact .shift
  | goal hred hact | reduce hred hact => exact .reduce hred hact
  | recover herr | discard herr => exact .error herr

/-- The states a run can end in: as they were before the last step, after a full stack
was reported, or after an error. -/
inductive Finish (t : Tables T) (c : Client T V C) (p : State T V C) : C → Prop
  | same : Finish t c p p.client
  | overflow {x : C} (hx : Pushing t c p x) : Finish t c p (c.overflow x)
  | error {x : C} (herr : Erring t c p x) : Finish t c p x

theorem recover_finish {p : State T V C} {x y : C} {status : Status} (herr : Erring t c p x)
    (h : Yacc.recover t c { p with client := x } = .done status y) : Finish t c p y := by
  rw [Yacc.recover.eq_def] at h
  split at h
  · split at h
    · cases h
      exact .error herr
    · cases push_done h
      exact .overflow (.error herr)
  · split at h
    · cases h
      exact .error herr
    · cases h

theorem reduce_finish {p : State T V C} {n : Nat} {y : C} {status : Status}
    (hred : Reducing t p n) (h : Yacc.reduce t c n p = .done status y) : Finish t c p y := by
  rw [Yacc.reduce.eq_def] at h
  split at h
  · cases h
    exact .same
  · next x hact => exact recover_finish (.action hred hact) h
  · next v x hact =>
      simp only at h
      split at h
      · cases h
      · cases push_done h
        exact .overflow (.reduce hred hact)

theorem step_finish {p : State T V C} {y : C} {status : Status}
    (h : step t c p = .done status y) : Finish t c p y := by
  obtain ⟨stack, look, errflag, accepting, client⟩ := p
  cases accepting with
  | true =>
      cases look with
      | none => cases h
      | some a =>
          simp only [step] at h
          split at h
          · cases h
            exact .same
          · cases h
  | false =>
      cases hdef : t.defred (top stack) with
      | some n =>
          simp only [step, hdef] at h
          exact reduce_finish ⟨rfl, .inl hdef⟩ h
      | none =>
          cases look with
          | none =>
              simp only [step, hdef] at h
              cases h
          | some a =>
              simp only [step, hdef] at h
              split at h
              · cases push_done h
                exact .overflow .shift
              · next n hshift hreduce =>
                  exact reduce_finish ⟨rfl, .inr ⟨hdef, a, rfl, hshift, hreduce⟩⟩ h
              · next hshift hreduce =>
                  refine recover_finish (.token rfl hdef rfl hshift hreduce)
                    (?_ : _ = Next.done status y)
                  split at h
                  · next hflag =>
                      rw [if_pos hflag]
                      exact h
                  · next hflag =>
                      rw [if_neg hflag]
                      exact h

end Effect

/-! ## The step that is taken -/

section Taken

variable [DecidableEq T] {p : State T V C} {st n : Nat} {a : T} {v : V} {x : C}

omit [DecidableEq T] in
theorem push_of_lt (h : p.stack.length + 1 < t.maxDepth) :
    push t c st v p = .run { p with stack := (st, v) :: p.stack } :=
  if_neg (Nat.not_le.2 h)

omit [DecidableEq T] in
theorem push_of_le (h : t.maxDepth ≤ p.stack.length + 1) :
    push t c st v p = .done .abort (c.overflow p.client) :=
  if_pos h

theorem step_of_resume (hacc : p.accepting = true) (hlook : p.look = some a) (hne : a ≠ t.eof) :
    step t c p = .run { p with accepting := false } := by
  obtain ⟨stack, look, errflag, accepting, client⟩ := p
  cases hacc
  cases hlook
  exact if_neg hne

theorem step_of_shift (hacc : p.accepting = false) (hdef : t.defred (top p.stack) = none)
    (hlook : p.look = some a) (hshift : t.shift (top p.stack) a = some st) :
    step t c p = push t c st (c.lval p.client)
      { p with look := none, errflag := p.errflag - 1 } := by
  obtain ⟨stack, look, errflag, accepting, client⟩ := p
  cases hacc
  cases hlook
  simp only [step, hdef, hshift]

/-- The step of a reduction. -/
theorem step_of_reducing (h : Reducing t p n) : step t c p = Yacc.reduce t c n p := by
  obtain ⟨stack, look, errflag, accepting, client⟩ := p
  obtain ⟨hacc, hdef | ⟨hdef, a, hlook, hshift, hreduce⟩⟩ := h
  · cases hacc
    simp only [step, hdef]
  · cases hacc
    cases hlook
    simp only [step, hdef, hshift, hreduce]

theorem reduce_of_ok (hact : c.action n (p.stack.map Prod.snd) p.client = .ok v x)
    (hgoal : ¬(top (p.stack.drop (t.len n)) = 0 ∧ t.goal n)) :
    Yacc.reduce t c n p = push t c (t.goto n (top (p.stack.drop (t.len n)))) v
      { p with stack := p.stack.drop (t.len n), client := x } := by
  rw [Yacc.reduce, hact]
  exact if_neg hgoal

theorem reduce_of_goal (hact : c.action n (p.stack.map Prod.snd) p.client = .ok v x)
    (hgoal : top (p.stack.drop (t.len n)) = 0 ∧ t.goal n) :
    Yacc.reduce t c n p = .run { p with
      stack := (t.final, v) :: p.stack.drop (t.len n), accepting := true, client := x } := by
  rw [Yacc.reduce, hact]
  exact if_pos hgoal

/-- The step before a token that does not fit. -/
theorem step_of_misfit (hacc : p.accepting = false) (hdef : t.defred (top p.stack) = none)
    (hlook : p.look = some a) (hshift : t.shift (top p.stack) a = none)
    (hreduce : t.reduce (top p.stack) a = none) :
    step t c p =
      recover t c (if p.errflag = 0 then { p with client := c.syntaxError p.client } else p) := by
  obtain ⟨stack, look, errflag, accepting, client⟩ := p
  cases hacc
  cases hlook
  simp only [step, hdef, hshift, hreduce]

/-- Recovery from an error depends on the stack only by the state it is popped down to. -/
theorem recover_of_popToError {base : List (Nat × V)}
    (hpop : popToError t p.stack = popToError t base) (hflag : p.errflag < 3) :
    recover t c p = recover t c { p with stack := base } := by
  simp only [recover, hpop]
  rw [if_pos hflag, if_pos hflag]

end Taken

/-! ## Counting steps -/

section Steps

variable [DecidableEq T]

/-- The state after `k` steps, if the run goes on that long. -/
def steps (t : Tables T) (c : Client T V C) : Nat → State T V C → Option (State T V C)
  | 0, p => some p
  | k + 1, p =>
      match step t c p with
      | .run q => steps t c k q
      | .done _ _ => none

theorem reaches_of_steps {k : Nat} {p q : State T V C} (h : steps t c k p = some q) :
    Reaches t c p q := by
  induction k generalizing p with
  | zero =>
      cases h
      exact .refl
  | succ k ih =>
      rw [steps] at h
      split at h
      · next p' hstep => exact .head hstep (ih h)
      · cases h

theorem steps_succ (k : Nat) (p : State T V C) :
    steps t c (k + 1) p =
      (steps t c k p).bind fun q =>
        match step t c q with
        | .run r => some r
        | .done _ _ => none := by
  induction k generalizing p with
  | zero => simp only [steps, Option.bind_some]
  | succ k ih =>
      rw [steps, steps]
      split
      · exact ih _
      · rfl

theorem exists_steps_of_reaches {p q : State T V C} (h : Reaches t c p q) :
    ∃ k, steps t c k p = some q := by
  induction h with
  | refl => exact ⟨0, rfl⟩
  | tail _ hstep ih =>
      obtain ⟨k, hk⟩ := ih
      refine ⟨k + 1, ?_⟩
      rw [steps_succ, hk, Option.bind_some, hstep]

theorem steps_isSome_mono {j k : Nat} {p : State T V C} (hjk : j ≤ k)
    (h : (steps t c k p).isSome) : (steps t c j p).isSome := by
  induction hjk with
  | refl => exact h
  | @step k _ ih =>
      apply ih
      rw [steps_succ] at h
      cases hk : steps t c k p with
      | none =>
          rw [hk] at h
          cases h
      | some q => rfl

/-- A run is over at its last state. -/
theorem lt_of_steps {j k : Nat} {p q r r' : State T V C} {status : Status} {x : C}
    (hk : steps t c k p = some q) (hdone : step t c q = .done status x)
    (hj : steps t c j p = some r) (hstep : step t c r = .run r') : j < k := by
  by_contra hle
  have hsome : (steps t c (j + 1) p).isSome := by
    rw [steps_succ, hj, Option.bind_some, hstep]
    rfl
  have hnext := steps_isSome_mono (Nat.succ_le_succ (Nat.le_of_not_lt hle)) hsome
  rw [steps_succ, hk, Option.bind_some, hdone] at hnext
  cases hnext

end Steps

/-! ## Scopes -/

section Scope

variable [DecidableEq T] (t c)

/-- `q` comes after `r`, and the stack of `r` has been at the bottom of the stack since. -/
def Within (r q : State T V C) : Prop :=
  Relation.ReflTransGen (fun p q => step t c p = .run q ∧ r.stack <:+ q.stack) r q

/-- In a run from `p`, a reduction by rule `n` whose action returned led to `r`. -/
def Opened (p : State T V C) (n : Nat) (r : State T V C) : Prop :=
  ∃ q v, Reaches t c p q ∧ Reducing t q n ∧
    c.action n (q.stack.map Prod.snd) q.client = .ok v r.client ∧ step t c q = .run r

/-- A scope: the states that mark it are pushed by reductions of one rule only, and are
popped by error recovery. Between the client `x` that a scope was opened with and the
client `y` inside it, `J x y` holds from the beginning and is kept by what can happen
above the mark. -/
structure Scope (E : Nat → Nat → Prop) (marks : Nat → Prop) (rule : Nat) (J : C → C → Prop) :
    Prop where
  final : ¬marks t.final
  shift : ∀ st a st', t.shift st a = some st' → ¬marks st'
  shiftError : ∀ st st', t.shiftError st = some st' → ¬marks st'
  goto : ∀ n st, marks (t.goto n st) → n = rule
  recover : ∀ (stack rest : List (Nat × V)) st, Path E stack →
    popToError t stack = some (rest, st) → ∀ e ∈ rest, ¬marks e.1
  opens : ∀ vs x v y, c.action rule vs x = .ok v y → J y y
  lex : ∀ x y, J x y → J x (c.lex y).2
  syntaxError : ∀ x y, J x y → J x (c.syntaxError y)
  error : ∀ n vs x y z, J x y → c.action n vs y = .error z → J x z
  action : ∀ (stack : List (Nat × V)) n x y v z, Path E stack → t.Reduces (top stack) n →
    (∃ e ∈ stack.drop (t.len n), marks e.1) → J x y →
    c.action n (stack.map Prod.snd) y = .ok v z → J x z

variable {t c}

variable {E : Nat → Nat → Prop} {marks : Nat → Prop} {rule : Nat} {J : C → C → Prop}

omit [DecidableEq T] in
/-- The clients inside a scope after an error was reported. -/
theorem Scope.erring (h : Scope t c E marks rule J) {p : State T V C} {x y : C}
    (hJ : J x p.client) (herr : Erring t c p y) : J x y := by
  cases herr with
  | action hred hact => exact h.error _ _ _ _ _ hJ hact
  | token =>
      split
      · exact h.syntaxError _ _ hJ
      · exact hJ

/-- A mark on the stack belongs to a scope that was opened with the stack as it is up
to the mark and has not been left since. -/
theorem Scope.within (h : Scope t c E marks rule J) (hs : Sound V t E) {p q : State T V C}
    (hreach : Reaches t c p q) (hp : p.stack = []) {e : Nat × V} {rest : List (Nat × V)}
    (hsuffix : e :: rest <:+ q.stack) (hmark : marks e.1) :
    ∃ r, Opened t c p rule r ∧ r.stack = e :: rest ∧ Within t c r q ∧ J r.client q.client := by
  induction hreach generalizing e rest with
  | refl =>
      rw [hp, List.suffix_nil] at hsuffix
      cases hsuffix
  | @tail q q' hq hstep ih =>
      have hpath : Path E q.stack := Reaches.path hs hq (by rw [hp]; trivial)
      -- A mark that was there before: the scope goes on.
      have hold : e :: rest <:+ q.stack → (∀ x, J x q.client → J x q'.client) →
          ∃ r, Opened t c p rule r ∧ r.stack = e :: rest ∧ Within t c r q' ∧
            J r.client q'.client := by
        intro hbefore hJ
        obtain ⟨r, hopened, hstack, hwithin, hclient⟩ := ih hbefore hmark
        refine ⟨r, hopened, hstack, hwithin.tail ⟨hstep, ?_⟩, hJ _ hclient⟩
        rw [hstack]
        exact hsuffix
      have hdrop : ∀ {k}, e :: rest <:+ q.stack.drop k → e :: rest <:+ q.stack :=
        fun hk => hk.trans (List.drop_suffix _ _)
      cases step_effect hstep with
      | fetch => exact hold hsuffix fun x => h.lex x _
      | resume => exact hold hsuffix fun x hx => hx
      | shift _ _ _ hshift =>
          rcases List.suffix_cons_iff.1 hsuffix with heq | hbefore
          · cases heq
            exact absurd hmark (h.shift _ _ _ hshift)
          · exact hold hbefore fun x hx => hx
      | goal hred hact =>
          rcases List.suffix_cons_iff.1 hsuffix with heq | hbefore
          · cases heq
            exact absurd hmark h.final
          · exact hold (hdrop hbefore) fun x hx => h.action _ _ _ _ _ _ hpath hred.reduces
              ⟨e, hbefore.subset List.mem_cons_self, hmark⟩ hx hact
      | @reduce n v x hred hact =>
          rcases List.suffix_cons_iff.1 hsuffix with heq | hbefore
          · cases heq
            cases h.goto _ _ hmark
            refine ⟨_, ⟨q, _, hq, hred, hact, hstep⟩, rfl, .refl, ?_⟩
            exact h.opens _ _ _ _ hact
          · exact hold (hdrop hbefore) fun x hx => h.action _ _ _ _ _ _ hpath hred.reduces
              ⟨e, hbefore.subset List.mem_cons_self, hmark⟩ hx hact
      | recover herr _ hpop =>
          rcases List.suffix_cons_iff.1 hsuffix with heq | hbefore
          · cases heq
            obtain ⟨st', hst'⟩ := popToError_shiftError hpop
            exact absurd hmark (h.shiftError _ _ hst')
          · have hmem := hbefore.subset (List.mem_cons_self (a := e) (l := rest))
            exact absurd hmark (h.recover _ _ _ hpath hpop e hmem)
      | discard herr => exact hold hsuffix fun x hx => h.erring hx herr

end Scope

end Yacc
