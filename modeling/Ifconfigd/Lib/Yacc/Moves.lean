import Ifconfigd.Lib.Yacc
import Mathlib.Data.List.Forall2

/-!
# Runs without errors

Which states a parser goes through depends on the kinds of its tokens and not on their
values, as long as no action fails. So a run over a piece of the input is described in
two parts: `drive` computes the moves of the parser from the tables, by evaluation, and
`replay` computes what these moves do to the values and to the part of the client that
the actions work on.

`Advances` says that the parser gets over a piece of its input; such facts compose along
the input.
-/

namespace Yacc

/-- What the parser does with its stacks. -/
inductive Move
  | shift
  | reduce (n : Nat)
  deriving DecidableEq

/-- The part of the state of a parser that values play no role in: the states on the
stack, top first, and whether it is accepting. -/
structure Control where
  accepting : Bool
  states : List Nat
  deriving DecidableEq

variable {T V C S : Type*}

section Drive

variable (t : Tables T)

/-- Push a state, unless the stack is full. -/
def Control.push (st : Nat) (ss : List Nat) : Option Control :=
  if ss.length + 1 ≥ t.maxDepth then none else some ⟨false, st :: ss⟩

/-- The stack after a reduction by rule `n`. -/
def Control.reduce (n : Nat) (ss : List Nat) : Option Control :=
  let rest := ss.drop (t.len n)
  if rest.headD 0 = 0 ∧ t.goal n then some ⟨true, t.final :: rest⟩
  else Control.push t (t.goto n (rest.headD 0)) rest

/-- The moves of the parser until it needs a token and none is left. There is no result
if it finds an error or the end of the input. -/
def drive [DecidableEq T] : Nat → Control → List T → Option (List Move × Control)
  | 0, _, _ => none
  | _ + 1, ⟨true, ss⟩, [] => some ([], ⟨true, ss⟩)
  | fuel + 1, ⟨true, ss⟩, a :: as => if a = t.eof then none else drive fuel ⟨false, ss⟩ (a :: as)
  | fuel + 1, ⟨false, ss⟩, as =>
      match t.defred (ss.headD 0), as with
      | some n, as =>
          (Control.reduce t n ss).bind fun k => (drive fuel k as).map (.map (.reduce n :: ·) id)
      | none, [] => some ([], ⟨false, ss⟩)
      | none, a :: as =>
          match t.shift (ss.headD 0) a, t.reduce (ss.headD 0) a with
          | some st, _ =>
              (Control.push t st ss).bind fun k => (drive fuel k as).map (.map (.shift :: ·) id)
          | none, some n =>
              (Control.reduce t n ss).bind fun k =>
                (drive fuel k (a :: as)).map (.map (.reduce n :: ·) id)
          | none, none => none

/-- The effect of moves on the stack of values, on the values of the tokens that are
left, and on what the actions work on. -/
def replay (act : Nat → List V → S → Option (V × S)) :
    List Move → List V → List V → S → Option (List V × List V × S)
  | [], vs, ws, s => some (vs, ws, s)
  | .shift :: ms, vs, w :: ws, s => replay act ms (w :: vs) ws s
  | .shift :: _, _, [], _ => none
  | .reduce n :: ms, vs, ws, s =>
      (act n vs s).bind fun r => replay act ms (r.1 :: vs.drop (t.len n)) ws r.2

theorem replay_append (act : Nat → List V → S → Option (V × S)) (ms ms' : List Move)
    (vs ws : List V) (s : S) :
    replay t act (ms ++ ms') vs ws s =
      (replay t act ms vs ws s).bind fun r => replay t act ms' r.1 r.2.1 r.2.2 := by
  fun_induction replay t act ms vs ws s with
  | case1 => rfl
  | case2 ms vs w ws s ih => exact ih
  | case3 => rfl
  | case4 n ms vs ws s ih =>
      rw [List.cons_append, replay]
      cases act n vs s with
      | none => rfl
      | some r => exact ih r

end Drive

/-- A client seen as a source of tokens that the actions do not disturb. `sem` is the part
the actions work on; an action that has a result in `act` succeeds with that result.
`reads y as` says that the tokens to come are `as`, with their values where these are
known. -/
structure Source (c : Client T V C) (S : Type*) where
  sem : C → S
  act : Nat → List V → S → Option (V × S)
  reads : C → List (T × Option V) → Prop
  lex : ∀ {y a o as}, reads y ((a, o) :: as) →
    (c.lex y).1 = a ∧ (∀ v ∈ o, c.lval (c.lex y).2 = v) ∧ reads (c.lex y).2 as ∧
      sem (c.lex y).2 = sem y
  action : ∀ {n vs y v s as}, act n vs (sem y) = some (v, s) → reads y as →
    ∃ y', c.action n vs y = .ok v y' ∧ sem y' = s ∧ reads y' as ∧ c.lval y' = c.lval y

section Source

variable {t : Tables T} {c : Client T V C} (src : Source c S)

/-- The tokens to come, the first of which may be the lookahead. -/
def Source.Expects (look : Option T) (y : C) (as : List (T × Option V)) : Prop :=
  (look = none ∧ src.reads y as) ∨
    ∃ a o as', as = (a, o) :: as' ∧ look = some a ∧ (∀ v ∈ o, c.lval y = v) ∧ src.reads y as'

/-- Where a parser is: its control, its values, what the actions work on, and the tokens
to come. -/
structure Source.Follows (p : State T V C) (k : Control) (vs : List V) (s : S)
    (as : List (T × Option V)) : Prop where
  states : p.stack.map Prod.fst = k.states
  values : p.stack.map Prod.snd = vs
  accepting : p.accepting = k.accepting
  sem : src.sem p.client = s
  input : src.Expects p.look p.client as

/-- A parser that has used up the tokens it was given. -/
def Source.At (p : State T V C) (k : Control) (s : S) (as : List (T × Option V)) : Prop :=
  p.look = none ∧ ∃ vs, src.Follows p k vs s as

theorem top_eq_headD (stack : List (Nat × V)) : top stack = (stack.map Prod.fst).headD 0 := by
  cases stack with
  | nil => rfl
  | cons e rest => rfl

variable {src} [DecidableEq T] {p : State T V C} {k k' : Control} {vs : List V} {s : S}
  {as : List (T × Option V)}

/-- A parser that needs a token reads it. -/
theorem Source.Follows.fetch {a : T} {o : Option V} (h : src.Follows p k vs s ((a, o) :: as))
    (hneeds : k.accepting = true ∨ t.defred (k.states.headD 0) = none) :
    ∃ q, Reaches t c p q ∧ src.Follows q k vs s ((a, o) :: as) ∧ q.look = some a ∧
      (∀ v ∈ o, c.lval q.client = v) ∧ src.reads q.client as := by
  rcases h.input with ⟨hlook, hreads⟩ | ⟨a', o', as', heq, hlook, hval, hreads⟩
  · obtain ⟨rfl, hval, hreads', hsem⟩ := src.lex hreads
    have hcalls : Calls t p := by
      refine ⟨hlook, ?_⟩
      rw [h.accepting, top_eq_headD, h.states]
      exact hneeds
    refine ⟨Yacc.fetch c p, .single (step_of_calls hcalls),
      ⟨h.states, h.values, h.accepting, hsem.trans h.sem, ?_⟩, rfl, hval, hreads'⟩
    exact .inr ⟨_, _, _, rfl, rfl, hval, hreads'⟩
  · cases heq
    exact ⟨p, .refl, h, hlook, hval, hreads⟩

omit [DecidableEq T] in
/-- Pushing a state, seen from the control. -/
theorem push_of_control {st : Nat} {ss : List Nat} (h : Control.push t st ss = some k) (v : V)
    (hstates : p.stack.map Prod.fst = ss) :
    push t c st v p = .run { p with stack := (st, v) :: p.stack } ∧ k = ⟨false, st :: ss⟩ := by
  rw [Control.push] at h
  split at h
  · cases h
  · next hroom =>
      cases h
      refine ⟨if_neg ?_, rfl⟩
      rwa [← hstates, List.length_map] at hroom

/-- A reduction whose action succeeds. -/
theorem Source.Follows.reduce {n : Nat} (h : src.Follows p k vs s as)
    (hcontrol : Control.reduce t n k.states = some k') {v : V} {s' : S}
    (hacc : k.accepting = false) (hact : src.act n vs s = some (v, s')) :
    ∃ q, Yacc.reduce t c n p = .run q ∧ src.Follows q k' (v :: vs.drop (t.len n)) s' as := by
  obtain ⟨stack, look, errflag, accepting, client⟩ := p
  obtain ⟨_, states⟩ := k
  obtain ⟨rfl, rfl, haccepting, rfl, hinput⟩ := h
  have hdrop (f : Nat × V → Nat) : (stack.map f).drop (t.len n) = (stack.drop (t.len n)).map f :=
    List.map_drop.symm
  -- The action leaves the tokens to come as they are, the lookahead among them.
  obtain ⟨y', haction, hsem, hinput'⟩ : ∃ y', c.action n (stack.map Prod.snd) client = .ok v y' ∧
      src.sem y' = s' ∧ src.Expects look y' as := by
    rcases hinput with ⟨rfl, hreads⟩ | ⟨a, o, as', rfl, rfl, hval, hreads⟩
    · obtain ⟨y', haction, hsem, hreads', -⟩ := src.action hact hreads
      exact ⟨y', haction, hsem, .inl ⟨rfl, hreads'⟩⟩
    · obtain ⟨y', haction, hsem, hreads', hlval⟩ := src.action hact hreads
      exact ⟨y', haction, hsem, .inr ⟨a, o, as', rfl, rfl, fun w hw => hlval ▸ hval w hw, hreads'⟩⟩
  simp only [Control.reduce, hdrop, ← top_eq_headD] at hcontrol
  simp only [Yacc.reduce, haction]
  split at hcontrol
  · next hgoal =>
      cases hcontrol
      rw [if_pos hgoal]
      exact ⟨_, rfl, rfl, by simp, rfl, hsem, hinput'⟩
  · next hgoal =>
      rw [if_neg hgoal]
      obtain ⟨hpush, rfl⟩ := push_of_control (p := ⟨stack.drop (t.len n), look, errflag,
        accepting, y'⟩) (c := c) hcontrol v rfl
      exact ⟨_, hpush, rfl, by simp, haccepting.trans hacc, hsem, hinput'⟩

/-- A shift of the lookahead. -/
theorem Source.Follows.shift {a : T} {o : Option V} (h : src.Follows p k vs s ((a, o) :: as))
    (hacc : k.accepting = false) (hdef : t.defred (k.states.headD 0) = none) {st : Nat}
    (hshift : t.shift (k.states.headD 0) a = some st)
    (hcontrol : Control.push t st k.states = some k') :
    ∃ q w, Reaches t c p q ∧ q.look = none ∧ (∀ v ∈ o, w = v) ∧
      src.Follows q k' (w :: vs) s as := by
  obtain ⟨p', hfetch, h', hlook, hval, hreads⟩ := h.fetch (.inr hdef)
  obtain ⟨stack, look, errflag, accepting, client⟩ := p'
  obtain ⟨_, states⟩ := k
  obtain ⟨rfl, rfl, rfl, rfl, -⟩ := h'
  obtain rfl : look = some a := hlook
  obtain ⟨hpush, rfl⟩ := push_of_control (p := ⟨stack, none, errflag - 1, accepting, client⟩)
    (c := c) hcontrol (c.lval client) rfl
  refine ⟨⟨(st, c.lval client) :: stack, none, errflag - 1, accepting, client⟩, c.lval client,
    hfetch.tail ?_, rfl, hval, rfl, rfl, hacc, rfl, .inl ⟨rfl, hreads⟩⟩
  simp only [← top_eq_headD] at hdef hshift
  simp only at hacc
  simp only [step, hacc, hdef, hshift]
  rw [← hacc]
  exact hpush

/-- The values of tokens agree with what is known about them. -/
def Fits (as : List (T × Option V)) (ws : List V) : Prop :=
  List.Forall₂ (fun a w => ∀ v ∈ a.2, w = v) as ws

omit [DecidableEq T] in
theorem exists_fits (v : V) (as : List (T × Option V)) : ∃ ws, Fits as ws := by
  refine ⟨as.map fun a => a.2.getD v, ?_⟩
  rw [Fits, List.forall₂_map_right_iff, List.forall₂_same]
  rintro ⟨a, o⟩ - w hw
  cases hw
  rfl

omit [DecidableEq T] in
/-- The first of the moves is a reduction, whatever the values of the tokens are. -/
theorem replay_reduce {act : Nat → List V → S → Option (V × S)} {n : Nat} {ms : List Move}
    {s' : S} (v : V)
    (h : ∀ ws, Fits as ws → ∃ vs', replay t act (.reduce n :: ms) vs ws s = some (vs', [], s')) :
    ∃ w s₁, act n vs s = some (w, s₁) ∧ ∀ ws, Fits as ws →
      ∃ vs', replay t act ms (w :: vs.drop (t.len n)) ws s₁ = some (vs', [], s') := by
  simp only [replay] at h
  obtain ⟨ws, hws⟩ := exists_fits v as
  obtain ⟨vs', hvs'⟩ := h ws hws
  obtain ⟨⟨w, s₁⟩, hact, -⟩ := Option.bind_eq_some_iff.1 hvs'
  refine ⟨w, s₁, hact, fun ws hws => ?_⟩
  obtain ⟨vs', hvs'⟩ := h ws hws
  exact ⟨vs', by rwa [hact] at hvs'⟩

/-- The parser makes the moves `drive` computes, if their actions succeed. -/
theorem Source.Follows.drive {fuel : Nat} {ms : List Move} {s' : S} {rest : List (T × Option V)}
    (h : src.Follows p k vs s (as ++ rest)) (hlook : as = [] → p.look = none)
    (hdrive : Yacc.drive t fuel k (as.map Prod.fst) = some (ms, k'))
    (hreplay : ∀ ws, Fits as ws → ∃ vs', replay t src.act ms vs ws s = some (vs', [], s')) :
    ∃ q, Reaches t c p q ∧ src.At q k' s' rest := by
  induction fuel generalizing p k vs s as ms with
  | zero => cases hdrive
  | succ fuel ih =>
      obtain ⟨acc, ss⟩ := k
      -- A reduction by `n`, once `step` is known to make it.
      have hreduce {n : Nat} {p' : State T V C} {ms₁ : List Move} {k₁ : Control}
          (hp' : Reaches t c p p') (h' : src.Follows p' ⟨false, ss⟩ vs s (as ++ rest))
          (hlook' : as = [] → p'.look = none)
          (hstep : step t c p' = Yacc.reduce t c n p')
          (hk₁ : Control.reduce t n ss = some k₁)
          (hrest : Yacc.drive t fuel k₁ (as.map Prod.fst) = some (ms₁, k'))
          (hms : ms = .reduce n :: ms₁) : ∃ q, Reaches t c p q ∧ src.At q k' s' rest := by
        subst hms
        obtain ⟨w, s₁, hact, hreplay'⟩ := replay_reduce (c.lval p.client) hreplay
        obtain ⟨q, hq, hfollows⟩ := h'.reduce hk₁ rfl hact
        have hlook'' : as = [] → q.look = none := by
          intro has
          rcases (reduce_run hq h'.accepting).1 with heq | heq
          · rw [heq, hlook' has]
          · exact heq
        obtain ⟨r, hr, hat⟩ := ih hfollows hlook'' hrest hreplay'
        exact ⟨r, (hp'.tail (hstep.trans hq)).trans hr, hat⟩
      cases acc with
      | true =>
          cases as with
          | nil =>
              cases hdrive
              obtain ⟨vs', hvs'⟩ := hreplay [] .nil
              cases hvs'
              exact ⟨p, .refl, hlook rfl, vs, h⟩
          | cons a as =>
              obtain ⟨a, o⟩ := a
              simp only [Yacc.drive, List.map_cons, Option.ite_none_left_eq_some] at hdrive
              obtain ⟨p', hfetch, h', hlook', -, -⟩ := h.fetch (t := t) (.inl rfl)
              have hstep : step t c p' = .run { p' with accepting := false } := by
                have haccepting := h'.accepting
                obtain ⟨stack, look, errflag, accepting, client⟩ := p'
                subst hlook' haccepting
                simp [step, hdrive.1]
              have h'' : src.Follows { p' with accepting := false } ⟨false, ss⟩ vs s
                  ((a, o) :: as ++ rest) := ⟨h'.states, h'.values, rfl, h'.sem, h'.input⟩
              obtain ⟨q, hq, hat⟩ := ih h'' (by simp) hdrive.2 hreplay
              exact ⟨q, (hfetch.tail hstep).trans hq, hat⟩
      | false =>
          cases hdef : t.defred (ss.headD 0) with
          | some n =>
              simp only [Yacc.drive, hdef, Option.bind_eq_some_iff, Option.map_eq_some_iff] at hdrive
              obtain ⟨k₁, hk₁, ⟨ms₁, k'⟩, hrest, heq⟩ := hdrive
              cases heq
              refine hreduce .refl h hlook ?_ hk₁ hrest rfl
              have hstates := h.states
              have haccepting := h.accepting
              simp only [step, haccepting, top_eq_headD, hstates, hdef]
          | none =>
              cases as with
              | nil =>
                  simp only [Yacc.drive, hdef, List.map_nil, Option.some.injEq] at hdrive
                  cases hdrive
                  obtain ⟨vs', hvs'⟩ := hreplay [] .nil
                  cases hvs'
                  exact ⟨p, .refl, hlook rfl, vs, h⟩
              | cons a as =>
                  obtain ⟨a, o⟩ := a
                  simp only [Yacc.drive, hdef, List.map_cons] at hdrive
                  split at hdrive
                  · next st hshift =>
                      simp only [Option.bind_eq_some_iff, Option.map_eq_some_iff] at hdrive
                      obtain ⟨k₁, hk₁, ⟨ms₁, k'⟩, hrest, heq⟩ := hdrive
                      cases heq
                      obtain ⟨p', w, hp', hlook', hw, h'⟩ := h.shift rfl hdef hshift hk₁
                      obtain ⟨q, hq, hat⟩ := ih h' (fun _ => hlook') hrest fun ws hws =>
                        hreplay (w :: ws) (.cons hw hws)
                      exact ⟨q, hp'.trans hq, hat⟩
                  · next n hshift hred =>
                      simp only [Option.bind_eq_some_iff, Option.map_eq_some_iff] at hdrive
                      obtain ⟨k₁, hk₁, ⟨ms₁, k'⟩, hrest, heq⟩ := hdrive
                      cases heq
                      obtain ⟨p', hp', h', hlook', -, -⟩ := h.fetch (t := t) (.inr hdef)
                      refine hreduce hp' h' (by simp) ?_ hk₁ hrest rfl
                      have hstates := h'.states
                      have haccepting := h'.accepting
                      simp only [step, haccepting, hlook', top_eq_headD, hstates, hdef, hshift, hred]
                  · cases hdrive

/-- The parser gets over the tokens `as`. -/
def Source.Advances (src : Source c S) (t : Tables T) (k : Control) (s : S)
    (as : List (T × Option V)) (k' : Control) (s' : S) : Prop :=
  ∀ p rest, src.At p k s (as ++ rest) → ∃ q, Reaches t c p q ∧ src.At q k' s' rest

theorem Source.Advances.refl : src.Advances t k s [] k s :=
  fun p _ h => ⟨p, .refl, h⟩

theorem Source.Advances.trans {s₁ s₂ : S} {k₁ k₂ : Control} {bs : List (T × Option V)}
    (h : src.Advances t k s as k₁ s₁) (h' : src.Advances t k₁ s₁ bs k₂ s₂) :
    src.Advances t k s (as ++ bs) k₂ s₂ := by
  intro p rest hp
  rw [List.append_assoc] at hp
  obtain ⟨q, hq, hat⟩ := h p (bs ++ rest) hp
  obtain ⟨r, hr, hat'⟩ := h' q rest hat
  exact ⟨r, hq.trans hr, hat'⟩

/-- Getting over a piece of the input by the moves `drive` computes. -/
theorem advances_of_drive {fuel : Nat} {ms : List Move} {s' : S}
    (hdrive : drive t fuel k (as.map Prod.fst) = some (ms, k'))
    (hreplay : ∀ vs ws, Fits as ws → ∃ vs', replay t src.act ms vs ws s = some (vs', [], s')) :
    src.Advances t k s as k' s' := by
  intro p rest hp
  obtain ⟨hlook, vs, h⟩ := hp
  exact h.drive (fun _ => hlook) hdrive (hreplay vs)

/-- At the end of the input an accepting parser accepts. -/
theorem Source.At.accept {ss : List Nat} {o : Option V}
    (h : src.At p ⟨true, ss⟩ s [(t.eof, o)]) :
    ∃ q y, Reaches t c p q ∧ step t c q = .done .accept y ∧ src.sem y = s ∧ src.reads y [] := by
  obtain ⟨-, vs, h⟩ := h
  obtain ⟨q, hq, h', hlook, -, hreads⟩ := h.fetch (t := t) (.inl rfl)
  refine ⟨q, q.client, hq, ?_, h'.sem, hreads⟩
  have haccepting := h'.accepting
  simp only [step, haccepting, hlook, if_true]

/-- From each of the places `K` the parser gets over the tokens `as` to one of them. -/
def Source.Over (src : Source c S) (t : Tables T) (K : List Control) (s : S)
    (as : List (T × Option V)) (s' : S) : Prop :=
  ∀ k ∈ K, ∃ k' ∈ K, src.Advances t k s as k' s'

theorem Source.Over.refl {K : List Control} : src.Over t K s [] s :=
  fun k hk => ⟨k, hk, .refl⟩

theorem Source.Over.trans {K : List Control} {s₁ s₂ : S} {bs : List (T × Option V)}
    (h : src.Over t K s as s₁) (h' : src.Over t K s₁ bs s₂) : src.Over t K s (as ++ bs) s₂ := by
  intro k hk
  obtain ⟨k₁, hk₁, hadv⟩ := h k hk
  obtain ⟨k₂, hk₂, hadv'⟩ := h' k₁ hk₁
  exact ⟨k₂, hk₂, hadv.trans hadv'⟩

end Source

/-! ## Scripts -/

/-- Moves in the order they are found in a run: some reductions, and for each token a
shift and the reductions after it. -/
def script (pre : List Nat) (rules : List (List Nat)) : List Move :=
  pre.map .reduce ++ rules.flatMap fun r => .shift :: r.map .reduce

section Script

variable {t : Tables T} {act : Nat → List V → S → Option (V × S)} {s s' s'' : S}

/-- Rule `n` has no action. -/
def Silent (act : Nat → List V → S → Option (V × S)) (n : Nat) : Prop :=
  ∀ vs s, ∃ v, act n vs s = some (v, s)

theorem replay_silent {ns : List Nat} (h : ∀ n ∈ ns, Silent act n) (vs ws : List V) :
    ∃ vs', replay t act (ns.map .reduce) vs ws s = some (vs', ws, s) := by
  induction ns generalizing vs with
  | nil => exact ⟨vs, rfl⟩
  | cons n ns ih =>
      obtain ⟨v, hv⟩ := h n List.mem_cons_self vs s
      obtain ⟨vs', hvs'⟩ := ih (fun m hm => h m (List.mem_cons_of_mem _ hm))
        (v :: vs.drop (t.len n))
      exact ⟨vs', by rw [List.map_cons, replay, hv, Option.bind_some, hvs']⟩

/-- What the reductions after a token do, where `o` is what is known about its value. -/
def Does (t : Tables T) (act : Nat → List V → S → Option (V × S)) (o : Option V) (r : List Nat)
    (s s' : S) : Prop :=
  ∀ w vs ws, (∀ v ∈ o, w = v) →
    ∃ vs', replay t act (r.map .reduce) (w :: vs) ws s = some (vs', ws, s')

theorem Does.silent {o : Option V} {r : List Nat} (h : ∀ n ∈ r, Silent act n) : Does t act o r s s :=
  fun w vs ws _ => replay_silent h (w :: vs) ws

/-- A rule whose action looks at the value of the token. -/
theorem Does.action {n : Nat} {w : V} (h : ∀ vs, ∃ v, act n (w :: vs) s = some (v, s')) :
    Does t act (some w) [n] s s' := by
  intro u vs ws hu
  obtain rfl := hu w rfl
  obtain ⟨v, hv⟩ := h vs
  exact ⟨_, by rw [List.map_singleton, replay, hv, Option.bind_some, replay]⟩

/-- A rule whose action looks at no value. -/
theorem Does.blind {n : Nat} (h : ∀ vs, ∃ v, act n vs s = some (v, s')) :
    Does t act none [n] s s' := by
  intro w vs ws _
  obtain ⟨v, hv⟩ := h (w :: vs)
  exact ⟨_, by rw [List.map_singleton, replay, hv, Option.bind_some, replay]⟩

/-- A rule that replaces the value of the token by another one. -/
theorem Does.replace {n : Nat} {r : List Nat} {o : Option V} {u : V} (hlen : t.len n = 1)
    (h : ∀ vs, act n vs s = some (u, s)) (hr : Does t act (some u) r s s') :
    Does t act o (n :: r) s s' := by
  intro w vs ws _
  obtain ⟨vs', hvs'⟩ := hr u vs ws (by simp)
  exact ⟨vs', by rw [List.map_cons, replay, h, Option.bind_some, hlen, List.drop_one,
    List.tail_cons, hvs']⟩

theorem Does.silent_cons {n : Nat} {r : List Nat} {o : Option V} (hn : Silent act n)
    (hr : Does t act none r s s') : Does t act o (n :: r) s s' := by
  intro w vs ws _
  obtain ⟨v, hv⟩ := hn (w :: vs) s
  obtain ⟨vs', hvs'⟩ := hr v ((w :: vs).drop (t.len n)) ws (by simp)
  exact ⟨vs', by rw [List.map_cons, replay, hv, Option.bind_some, hvs']⟩

theorem Does.append {o : Option V} {r post : List Nat} (h : Does t act o r s s')
    (hpost : ∀ n ∈ post, Silent act n) : Does t act o (r ++ post) s s' := by
  intro w vs ws hw
  obtain ⟨vs₁, hvs₁⟩ := h w vs ws hw
  obtain ⟨vs₂, hvs₂⟩ := replay_silent (t := t) (s := s') hpost vs₁ ws
  exact ⟨vs₂, by rw [List.map_append, replay_append, hvs₁, Option.bind_some, hvs₂]⟩

/-- What the moves over some tokens do, token by token. -/
inductive Runs (t : Tables T) (act : Nat → List V → S → Option (V × S)) :
    List (Option V) → List (List Nat) → S → S → Prop
  | nil {s : S} : Runs t act [] [] s s
  | cons {o : Option V} {r : List Nat} {os : List (Option V)} {rs : List (List Nat)} {s s₁ s₂ : S}
      (hdoes : Does t act o r s s₁) (hruns : Runs t act os rs s₁ s₂) :
      Runs t act (o :: os) (r :: rs) s s₂

theorem Runs.replay {as : List (T × Option V)} {rs : List (List Nat)}
    (h : Runs t act (as.map Prod.snd) rs s s') {ws : List V} (hws : Fits as ws) (vs : List V) :
    ∃ vs', Yacc.replay t act (rs.flatMap fun r => .shift :: r.map .reduce) vs ws s =
      some (vs', [], s') := by
  induction hws generalizing rs s vs with
  | nil =>
      cases h
      exact ⟨vs, rfl⟩
  | @cons a w as ws hw _ ih =>
      rw [List.map_cons] at h
      cases h with
      | cons hdoes hruns =>
          obtain ⟨vs₁, hvs₁⟩ := hdoes w vs ws hw
          obtain ⟨vs₂, hvs₂⟩ := ih hruns vs₁
          refine ⟨vs₂, ?_⟩
          rw [List.flatMap_cons, List.cons_append, Yacc.replay, replay_append, hvs₁,
            Option.bind_some, hvs₂]

/-- Getting over a piece of the input by the moves of a script. -/
theorem advances_of_script [DecidableEq T] {c : Client T V C} {src : Source c S} {k k' : Control}
    {as : List (T × Option V)} {fuel : Nat} {pre : List Nat} {rs : List (List Nat)}
    (hdrive : drive t fuel k (as.map Prod.fst) = some (script pre rs, k'))
    (hpre : ∀ n ∈ pre, Silent src.act n) (h : Runs t src.act (as.map Prod.snd) rs s s') :
    src.Advances t k s as k' s' := by
  refine advances_of_drive hdrive fun vs ws hws => ?_
  obtain ⟨vs₁, hvs₁⟩ := replay_silent (t := t) (s := s) hpre vs ws
  obtain ⟨vs₂, hvs₂⟩ := h.replay hws vs₁
  exact ⟨vs₂, by rw [script, replay_append, hvs₁, Option.bind_some, hvs₂]⟩

end Script

end Yacc
