import Ifconfigd.Lib.Yacc.Trace
import Ifconfigd.Parse.Enclosing

/-!
# Notes taken by `parse_config`

The text of a configuration is what its reductions say it is. Here a call of
`parse_config` is watched from its first step to its last, and the configuration it
returns is the heap of the last state.
-/

namespace Ifconfigd.Parse

open CLib Yacc

variable {L : Type*} {fs : FileSystem}

/-- A call of `parse_config` that runs to its end: `q` is the state before the last step,
and `ls` are the notes taken up to there. -/
def NotedIn (fs : FileSystem) (note : Nat → List Val → Yy → List L) (filename : CStr)
    (g : Globals) (ls : List L) (q : State Token Val Yy) : Prop :=
  ∃ file, pushfile fs g.files filename false = some file ∧
    Trace tables (client fs) note (fun _ => True) (.initial (g.start file)) ls q ∧
    ∃ status y, step tables (client fs) q = .done status y

/-- Treating an error does not touch the heap. -/
theorem Erring.heap_eq {p : State Token Val Yy} {y : Yy} (h : Erring tables (client fs) p y) :
    y.heap = p.client.heap := by
  cases h with
  | action _ hact =>
      obtain ⟨l, rfl⟩ := action_onlyReports fs _ _ _ y hact
      rfl
  | token =>
      split
      · rfl
      · rfl

/-- The last step of a run that is accepted does not touch the heap: it does not report
that the stack is full. -/
theorem heap_of_done {p : State Token Val Yy} {y : Yy} {status : Status}
    (h : step tables (client fs) p = .done status y) (hy : y.lex.file.errors = 0) :
    y.heap = p.client.heap := by
  cases step_finish h with
  | same => rfl
  | overflow hx => cases hy
  | error herr => exact Erring.heap_eq herr

variable {fuel : Nat} {filename : CStr} {g g' : Globals} {conf : IfconfigdConf}

/-- A call that accepted its file ran to its end. -/
theorem exists_notedIn (note : Nat → List Val → Yy → List L)
    (h : parseConfig fs fuel filename g = some (.returned (some conf) g')) :
    ∃ ls q, NotedIn fs note filename g ls q := by
  obtain ⟨file, status, y, hfile, hrun, -⟩ := parseConfig_accepted h
  obtain ⟨q, hreach, hdone⟩ := exists_reaches_of_run hrun
  obtain ⟨ls, hls⟩ := exists_trace note hreach
  exact ⟨ls, q, file, hfile, hls, status, y, hdone⟩

/-- The configuration is the one in the heap at the end. -/
theorem NotedIn.read {note : Nat → List Val → Yy → List L} {ls : List L} {q : State Token Val Yy}
    (hnoted : NotedIn fs note filename g ls q)
    (h : parseConfig fs fuel filename g = some (.returned (some conf) g')) :
    conf = q.client.heap.read := by
  obtain ⟨file, status, y, hfile, hrun, -, herrors, rfl, -⟩ := parseConfig_accepted h
  obtain ⟨r, hr, hdone⟩ := exists_reaches_of_run hrun
  obtain ⟨file', hfile', htrace, _, _, hend⟩ := hnoted
  rw [hfile] at hfile'
  cases hfile'
  -- There is only one last state.
  have heq : q = r := by
    rcases (htrace.reaches.of_done hr hdone).cases_head with heq | ⟨q', hstep, -⟩
    · exact heq
    · rw [hend] at hstep
      cases hstep
  rw [heq, heap_of_done hdone herrors]

/-- The notes of a call that takes `k + 1` steps. -/
def notesOf (fs : FileSystem) (note : Nat → List Val → Yy → List L) (filename : CStr)
    (g : Globals) (k : Nat) : Option (List L × State Token Val Yy) :=
  match pushfile fs g.files filename false with
  | none => none
  | some file =>
      (watch tables (client fs) note (fun _ => True) k (.initial (g.start file))).filter fun x =>
        match step tables (client fs) x.2 with
        | .run _ => false
        | .done _ _ => true

theorem notedIn_of_notesOf {note : Nat → List Val → Yy → List L} {ls : List L}
    {q : State Token Val Yy} {k : Nat} (h : notesOf fs note filename g k = some (ls, q)) :
    NotedIn fs note filename g ls q := by
  rw [notesOf] at h
  split at h
  · cases h
  · next file hfile =>
      obtain ⟨hwatch, hdone⟩ := Option.filter_eq_some_iff.1 h
      refine ⟨file, hfile, trace_of_watch hwatch, ?_⟩
      split at hdone
      · cases hdone
      · next status y hstep => exact ⟨status, y, hstep⟩

/-- What the notes say about the heap: a relation that every action keeps, with its note
appended. -/
theorem NotedIn.holds {note : Nat → List Val → Yy → List L} {ls : List L}
    {q : State Token Val Yy} (hnoted : NotedIn fs note filename g ls q) {K : List L → Yy → Prop}
    (hstart : ∀ file, K [] (g.start file)) (hkept : ∀ ls y l, K ls y → K ls (y.withLex l))
    (haction : ∀ ls n vs y v z, K ls y → action fs n vs (defaultVal n vs) y = .ok v z →
      K (ls ++ note n vs y) z) :
    K ls q.client := by
  obtain ⟨file, -, htrace, -⟩ := hnoted
  refine htrace.holds (hstart file) ?_ ?_ ?_ ?_
  · exact fun ls y h => hkept ls y _ h
  · exact fun ls y h => hkept ls y _ h
  · intro ls n vs y z h hact
    obtain ⟨l, rfl⟩ := action_onlyReports fs n vs _ z hact
    exact hkept ls y l h
  · intro ls r r' n v _ _ _ _ hact h
    exact haction ls n _ _ v _ h hact

/-! ## Actions that return -/

section Returns

variable {P : Yy → Prop}

/-- If the action returns, it comes to a state with `P`. -/
def Returns (P : Yy → Prop) (o : Outcome Val Yy) : Prop := ∀ v z, o = .ok v z → P z

theorem returns_ok {v : Val} {z : Yy} (h : P z) : Returns P (.ok v z) := by
  rintro _ _ ⟨⟩
  exact h

theorem returns_yyfail (m : Message) (y : Yy) : Returns P (yyfail m y) := by
  rintro _ _ ⟨⟩

theorem returns_of_holds {o : Outcome Val Yy} (h : o.Holds P) : Returns P o := by
  rintro v z rfl
  exact h

theorem withString_returns {vs : List Val} {k : CStr → Outcome Val Yy}
    (h : ∀ s vs', vs = .string s :: vs' → Returns P (k s)) : Returns P (withString vs 0 k) := by
  intro v z hz
  simp only [withString] at hz
  split at hz
  · next s hs =>
      cases vs with
      | nil => cases hs
      | cons w vs' =>
          cases hs
          exact h s vs' rfl v z hz
  · cases hz

theorem withNumber_returns {vs : List Val} {k : Int → Outcome Val Yy}
    (h : ∀ n vs', vs = .number n :: vs' → Returns P (k n)) : Returns P (withNumber vs 0 k) := by
  intro v z hz
  simp only [withNumber] at hz
  split at hz
  · next s hs =>
      cases vs with
      | nil => cases hs
      | cons w vs' =>
          cases hs
          exact h s vs' rfl v z hz
  · cases hz

end Returns

theorem map_modify_of_eq {A B : Type*} {f : A → A} {g : A → B} (h : ∀ a, g (f a) = g a)
    (l : List A) (i : Nat) : (l.modify i f).map g = l.map g := by
  induction l generalizing i with
  | nil => simp
  | cons a l ih =>
      cases i with
      | zero => simp [h]
      | succ i => simp [ih]

/-! ## Last notes -/

/-- The value of the last note that has one. -/
def lastOf {A : Type*} (f : L → Option A) (ls : List L) : Option A := (ls.filterMap f).getLast?

theorem lastOf_append {A : Type*} (f : L → Option A) (ls ls' : List L) :
    lastOf f (ls ++ ls') = (lastOf f ls').or (lastOf f ls) := by
  rw [lastOf, List.filterMap_append, List.getLast?_append]
  rfl

theorem lastOf_singleton {A : Type*} (f : L → Option A) (l : L) : lastOf f [l] = f l := by
  rw [lastOf]
  cases h : f l <;> simp [h]

/-! ## Blocks -/

/-- The block of a section, as far as `q`: `r` is the state after the action of the header,
and the section has not been left since. -/
structure SectionBlock (c : Client Token Val Yy) (y : Yy) (note : Nat → List Val → Yy → List L)
    (rule : Nat) (r : State Token Val Yy) (ls : List L) (q : State Token Val Yy) : Prop where
  opened : Opened tables c (.initial y) rule r
  trace : Trace tables c note (fun q => r.stack <:+ q.stack) r ls q

/-- The action of a header pushes the mark of its section. -/
theorem mark_pushed :
    (marks.all fun a => tables.len a.2.2 = 0 && !tables.goal a.2.2 &&
      (List.range rows.length).all fun st =>
        !(reductions st).contains a.2.2 || tables.goto a.2.2 st = a.1) = true := by
  decide +kernel

theorem stack_of_opened {c : Client Token Val Yy} {p r : State Token Val Yy} {m rule : Nat}
    {lhs : Nonterm} (hm : (m, lhs, rule) ∈ marks) (h : Opened tables c p rule r) :
    tables.len rule = 0 ∧ ∃ v rest, r.stack = (m, v) :: rest := by
  have hall := List.all_eq_true.1 mark_pushed _ hm
  simp only [Bool.and_eq_true, Bool.not_eq_true', decide_eq_true_eq, List.all_eq_true] at hall
  obtain ⟨⟨hlen, hgoal⟩, hgoto⟩ := hall
  obtain ⟨q, v, -, hred, hact, hstep⟩ := h
  refine ⟨hlen, ?_⟩
  rcases stack_of_action hred hact hstep with ⟨-, hgoal'⟩ | hstack
  · rw [hgoal] at hgoal'
    cases hgoal'
  · rw [hlen, List.drop_zero] at hstack
    have hst := hgoto _ (List.mem_range.2 (lt_length_of_reduces hred.reduces))
    rw [List.contains_iff_mem.2 (mem_reductions hred.reduces), Bool.not_true, Bool.false_or,
      decide_eq_true_eq] at hst
    exact ⟨v, q.stack, by rw [hstack, hst]⟩

/-- What the notes of a block say: a relation that holds when the section is opened and
that every action inside it keeps, with its note appended. -/
theorem SectionBlock.holds {c : Client Token Val Yy} (hc : Feeds fs c) {y : Yy}
    {note : Nat → List Val → Yy → List L} {rule : Nat} {r q : State Token Val Yy} {ls : List L}
    (h : SectionBlock c y note rule r ls q) {o : Nat × List Nat} (ho : o ∈ outside) {lhs : Nonterm}
    (hm : (o.1, lhs, rule) ∈ marks) {J : Yy → Yy → Prop}
    (hscope : Scope tables c Edge (· = o.1) rule J) {K : List L → Yy → Prop}
    (hstart : ∀ vs x v, action fs rule vs (defaultVal rule vs) x = .ok v r.client → K [] r.client)
    (hkept : ∀ ls y l, K ls y → K ls (y.withLex l))
    (haction : ∀ ls n vs y v z, n ∉ o.2 → K ls y →
      action fs n vs (defaultVal n vs) y = .ok v z → K (ls ++ note n vs y) z) :
    K ls q.client := by
  obtain ⟨hlen, v, rest, hstack⟩ := stack_of_opened hm h.opened
  obtain ⟨q₀, v₀, hreach, -, hact, hstep⟩ := h.opened
  rw [action_of_feeds hc] at hact
  refine h.trace.holds (hstart _ _ _ hact) ?_ ?_ ?_ ?_
  · intro ls y hK
    obtain ⟨l, hl⟩ := hc.lex y
    rw [hl]
    exact hkept ls y l hK
  · intro ls y hK
    obtain ⟨l, hl⟩ := hc.syntaxError y
    rw [hl]
    exact hkept ls y l hK
  · intro ls n vs y z hK hact
    rw [action_of_feeds hc] at hact
    obtain ⟨l, rfl⟩ := action_onlyReports fs n vs _ z hact
    exact hkept ls y l hK
  · intro ls r' r'' n v' htrace hstep' hsuffix hred hact' hK
    have hsuffix' := htrace.last (List.suffix_refl _)
    rw [hstack] at hsuffix hsuffix'
    have hbelow := hscope.below hlen rfl hred hact' hstep' hsuffix' hsuffix
    have hreach' : Reaches tables c (.initial y) r' := (hreach.tail hstep).trans htrace.reaches
    have hpath : Path Edge r'.stack := hreach'.path (sound Val) trivial
    rw [action_of_feeds hc] at hact'
    exact haction ls n _ _ v' _ (not_mem_outside hpath hred.reduces ho hbelow) hK hact'

/-- The block opened by step `k + 1` of a run, and the next `j` steps inside it. -/
def readBlock (c : Client Token Val Yy) (y : Yy) (note : Nat → List Val → Yy → List L)
    (rule k j : Nat) : Option (State Token Val Yy × List L × State Token Val Yy) :=
  match steps tables c k (.initial y) with
  | none => none
  | some q =>
      match nextRule tables q, c.action rule (q.stack.map Prod.snd) q.client, step tables c q with
      | some n, .ok _ _, .run r =>
          if n = rule then
            (watch tables c note (fun q => r.stack <:+ q.stack) j r).map fun x => (r, x)
          else none
      | _, _, _ => none

theorem block_of_readBlock {c : Client Token Val Yy} {y : Yy}
    {note : Nat → List Val → Yy → List L} {rule k j : Nat} {r q : State Token Val Yy}
    {ls : List L} (h : readBlock c y note rule k j = some (r, ls, q)) :
    SectionBlock c y note rule r ls q := by
  rw [readBlock] at h
  split at h
  · cases h
  · next q₀ hsteps =>
      split at h
      · next n v x r' hnext hact hstep =>
          split at h
          · next hrule =>
              obtain ⟨⟨ls', q'⟩, hwatch, heq⟩ := Option.map_eq_some_iff.1 h
              cases heq
              subst hrule
              have hred := nextRule_eq_some_iff.1 hnext
              refine ⟨⟨q₀, v, reaches_of_steps hsteps, hred, ?_, hstep⟩, trace_of_watch hwatch⟩
              rw [hact, client_of_action hred hact hstep]
          · cases h
      · cases h

end Ifconfigd.Parse
