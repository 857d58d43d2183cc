import Ifconfigd.Parse.Graft

/-!
# Newlines in a row

Inside a block the newlines of a row stay on the stack until another token follows, since
`optnl : '\n' optnl` recurses on the right. Then they are reduced, all of them to one `optnl`
or `nl`. So two parsers that have read different numbers of newlines are in the same state
after the next token, unless the stack was too small for one of them.
-/

namespace Ifconfigd.Parse

open CLib Yacc

/-! ## The states after a newline -/

/-- The states `optnl : '\n' . optnl` and `nl : '\n' . optnl`. -/
def afterNewline : List Nat := [26, 40]

section States

variable {st : Nat} (h : st ∈ afterNewline)

include h

theorem afterNewline_cases : st = 26 ∨ st = 40 := by simpa [afterNewline] using h

theorem defred_afterNewline : tables.defred st = none := by
  rcases afterNewline_cases h with rfl | rfl <;> rfl

theorem shiftError_afterNewline : tables.shiftError st = none := by
  rcases afterNewline_cases h with rfl | rfl <;> rfl

theorem shift_afterNewline (a : Token) :
    tables.shift st a = if a = newline then some 26 else none := by
  have hrow : (row st).shifts = [(newline, 26)] := by
    rcases afterNewline_cases h with rfl | rfl <;> rfl
  change entry (row st).shifts a = _
  rw [hrow, entry, List.find?_singleton]
  by_cases ha : a = newline
  · rw [if_pos ha, if_pos (by simp [ha])]
    rfl
  · rw [if_neg ha, if_neg (by simpa using fun hn : newline = a => ha hn.symm)]
    rfl

theorem reduce_afterNewline (a : Token) :
    tables.reduce st a = tables.reduce 26 a ∧ ∀ n, tables.reduce st a = some n → n = 9 := by
  have hrow : (row st).reduces = (row 26).reduces := by
    rcases afterNewline_cases h with rfl | rfl <;> decide
  have hnine : ∀ e ∈ (row 26).reduces, e.2 = 9 := by decide
  refine ⟨congrArg (entry · a) hrow, fun n hn => ?_⟩
  change entry (row st).reduces a = some n at hn
  rw [hrow] at hn
  exact hnine _ (mem_of_entry hn)

theorem goto_afterNewline : tables.goto 9 st ∉ valued := by
  rcases afterNewline_cases h with rfl | rfl <;> decide

end States

/-- The two rules of `optnl` lead to the same states. -/
theorem goto_optnl (st : Nat) : tables.goto 8 st = tables.goto 9 st := rfl

/-! ## More newlines on the stack -/

/-- The stack has more newlines on it than `base`. -/
def Lengthened (base stack : List (Nat × Val)) : Prop :=
  ∃ news, stack = news ++ base ∧ ∀ e ∈ news, e.1 = 26

section Lengthened

variable {base stack : List (Nat × Val)} (h : Lengthened base stack)

theorem Lengthened.refl (base : List (Nat × Val)) : Lengthened base base := ⟨[], rfl, nofun⟩

theorem Lengthened.push {base stack : List (Nat × Val)} (h : Lengthened base stack) (v : Val) :
    Lengthened base ((26, v) :: stack) := by
  obtain ⟨news, rfl, hnews⟩ := h
  refine ⟨(26, v) :: news, rfl, fun e he => ?_⟩
  rcases List.mem_cons.1 he with rfl | he
  · rfl
  · exact hnews e he

theorem Lengthened.trans {base stack stack' : List (Nat × Val)} (h : Lengthened base stack)
    (h' : Lengthened stack stack') : Lengthened base stack' := by
  obtain ⟨news, rfl, hnews⟩ := h
  obtain ⟨news', rfl, hnews'⟩ := h'
  refine ⟨news' ++ news, (List.append_assoc _ _ _).symm, fun e he => ?_⟩
  exact (List.mem_append.1 he).elim (hnews' e) (hnews e)

include h

theorem Lengthened.suffix : base <:+ stack := by
  obtain ⟨news, rfl, -⟩ := h
  exact List.suffix_append news base

theorem Lengthened.top_mem (hbase : top base ∈ afterNewline) : top stack ∈ afterNewline := by
  obtain ⟨news, rfl, hnews⟩ := h
  cases news with
  | nil => exact hbase
  | cons e news =>
      rw [List.cons_append, top, hnews e List.mem_cons_self]
      decide

theorem Lengthened.popToError : popToError tables stack = Yacc.popToError tables base := by
  obtain ⟨news, rfl, hnews⟩ := h
  induction news with
  | nil => rfl
  | cons e news ih =>
      have hnone : tables.shiftError e.1 = none := by
        rw [hnews e List.mem_cons_self]
        rfl
      rw [List.cons_append, Yacc.popToError, hnone]
      exact ih fun e he => hnews e (List.mem_cons_of_mem _ he)

end Lengthened

section Collapse

variable {fs : FileSystem} {p : State Token Val Yy} {base : List (Nat × Val)}

theorem top_ne_zero_of_afterNewline {stack : List (Nat × Val)} (h : top stack ∈ afterNewline) :
    top stack ≠ 0 := by
  intro hzero
  rw [hzero] at h
  exact absurd h (by decide)

/-- The newlines above `base` are reduced one after the other. -/
theorem reaches_collapse {news : List (Nat × Val)} (hnews : ∀ e ∈ news, e.1 = 26)
    (hbase : top base ∈ afterNewline) (hacc : p.accepting = false) (v : Val)
    (hroom : (news ++ base).length + 1 < tables.maxDepth) :
    ∃ w, Reaches tables (client fs)
      { p with stack := (tables.goto 9 (top (news ++ base)), v) :: (news ++ base) }
      { p with stack := (tables.goto 9 (top base), w) :: base } := by
  induction news generalizing v with
  | nil => exact ⟨v, .refl⟩
  | cons e news ih =>
      have hnews' : ∀ e ∈ news, e.1 = 26 := fun e he => hnews e (List.mem_cons_of_mem _ he)
      rw [List.cons_append, List.length_cons] at hroom
      obtain ⟨w, hw⟩ := ih hnews' e.2 (by omega)
      refine ⟨w, Relation.ReflTransGen.head ?_ hw⟩
      have htop := top_ne_zero_of_afterNewline (Lengthened.top_mem ⟨news, rfl, hnews'⟩ hbase)
      have hred : Reducing tables { p with
          stack := (tables.goto 9 (top (e :: news ++ base)), v) :: (e :: news ++ base) } 8 := by
        refine ⟨hacc, .inl ?_⟩
        rw [List.cons_append, top, top, hnews e List.mem_cons_self]
        rfl
      have hact : (client fs).action 8 (((tables.goto 9 (top (e :: news ++ base)), v) ::
          (e :: news ++ base)).map Prod.snd) p.client = .ok e.2 p.client := rfl
      refine (step_of_reducing hred).trans ((reduce_of_ok hact ?_).trans (push_of_lt ?_))
      · exact fun h => htop h.1
      · exact (show (news ++ base).length + 1 < tables.maxDepth by omega)

/-- Before another token an empty `optnl` is reduced. -/
theorem step_optnl (htop : top p.stack ∈ afterNewline) (hacc : p.accepting = false) {a : Token}
    (hlook : p.look = some a) (hreduce : tables.reduce 26 a = some 9) (ha : a ≠ newline) :
    step tables (client fs) p =
      push tables (client fs) (tables.goto 9 (top p.stack)) .none p := by
  have hred : Reducing tables p 9 := by
    refine ⟨hacc, .inr ⟨defred_afterNewline htop, a, hlook, ?_, ?_⟩⟩
    · rw [shift_afterNewline htop, if_neg ha]
    · rw [(reduce_afterNewline htop a).1, hreduce]
  have hact : (client fs).action 9 (p.stack.map Prod.snd) p.client = .ok .none p.client := rfl
  refine (step_of_reducing hred).trans (reduce_of_ok hact ?_)
  exact fun h => top_ne_zero_of_afterNewline htop h.1

/-- Then the newlines above `base` are reduced and the last one of `base` has its `optnl`. -/
theorem reachesLater_collapse (h : Lengthened base p.stack) (hbase : top base ∈ afterNewline)
    (hacc : p.accepting = false) {a : Token} (hlook : p.look = some a)
    (hreduce : tables.reduce 26 a = some 9) (ha : a ≠ newline)
    (hroom : p.stack.length + 1 < tables.maxDepth) :
    ∃ w, ReachesLater tables (client fs) p
      { p with stack := (tables.goto 9 (top base), w) :: base } := by
  have hstep := (@step_optnl fs p (h.top_mem hbase) hacc a hlook hreduce ha).trans
    (push_of_lt hroom)
  obtain ⟨news, hstack, hnews⟩ := h
  rw [hstack] at hroom
  obtain ⟨w, hw⟩ := @reaches_collapse fs p base news hnews hbase hacc .none hroom
  rw [← hstack] at hw
  exact ⟨w, Relation.TransGen.head' hstep hw⟩

end Collapse

/-! ## Parsers that come to the same end -/

/-- The same result, as far as the return value of the parse goes. -/
def EndsAlike (Fr : List File → List File → Prop) (r r' : Status × Yy) : Prop :=
  r'.1 = r.1 ∧ ∃ look, Paired (LexPairWith Fr look) r.2 r'.2

/-- The parsers go on to later states with `S`, or come to the same end. -/
def GoOn (fs fs' : FileSystem) (Fr : List File → List File → Prop)
    (S : State Token Val Yy → State Token Val Yy → Prop) (p q : State Token Val Yy) : Prop :=
  (∃ p' q', ReachesLater tables (client fs) p p' ∧ ReachesLater tables (client fs') q q' ∧
    S p' q') ∨
  ∃ r r', Ends tables (client fs) p r ∧ Ends tables (client fs') q r' ∧ EndsAlike Fr r r'

section GoOn

variable {fs fs' : FileSystem} {Fr : List File → List File → Prop}
  {S S' : State Token Val Yy → State Token Val Yy → Prop} {p q : State Token Val Yy}

theorem GoOn.imp_rel (h : GoOn fs fs' Fr S p q) (hS : ∀ p q, S p q → S' p q) :
    GoOn fs fs' Fr S' p q :=
  h.imp (fun ⟨p', q', hp, hq, h⟩ => ⟨p', q', hp, hq, hS p' q' h⟩) id

theorem GoOn.of_relates
    (h : Next.Relates S (fun look => Paired (LexPairWith Fr look))
      (step tables (client fs) p) (step tables (client fs') q)) : GoOn fs fs' Fr S p q := by
  cases hp : step tables (client fs) p with
  | run p' =>
      cases hq : step tables (client fs') q with
      | run q' =>
          rw [hp, hq] at h
          cases h with
          | run hS => exact .inl ⟨p', q', .single hp, .single hq, hS⟩
      | done status y =>
          rw [hp, hq] at h
          cases h
  | done status x =>
      cases hq : step tables (client fs') q with
      | run q' =>
          rw [hp, hq] at h
          cases h
      | done status' y =>
          rw [hp, hq] at h
          cases h with
          | done _ hR =>
              exact .inr ⟨_, _, (Ends.of_done hp).2 rfl, (Ends.of_done hq).2 rfl, rfl, _, hR⟩

/-- Two parsers that always go on end alike, if one of them ends. -/
theorem GoOn.ends (hS : ∀ p q, S p q → GoOn fs fs' Fr S p q) (h : S p q) :
    (∀ r, Ends tables (client fs) p r → ∃ r', Ends tables (client fs') q r' ∧ EndsAlike Fr r r') ∧
      ∀ r', Ends tables (client fs') q r' → ∃ r, Ends tables (client fs) p r ∧ EndsAlike Fr r r' := by
  constructor
  · refine fun r => Ends.follow (fun p q h => ?_) h
    exact (hS p q h).imp_left fun ⟨p', q', hp, hq, h⟩ => ⟨p', q', hp, hq.to_reflTransGen, h⟩
  · refine fun r' => @Ends.follow _ _ _ _ _ _ _ _ _ _ r' (fun q p => S p q)
      (fun r' r => EndsAlike Fr r r') (fun q p h => ?_) h
    rcases hS p q h with ⟨p', q', hp, hq, h⟩ | ⟨r, r', hp, hq, hR⟩
    · exact .inl ⟨q', p', hq, hp.to_reflTransGen, h⟩
    · exact .inr ⟨r', r, hq, hp, hR⟩

end GoOn

/-! ## Parsers that differ in their newlines -/

/-- The second parser has read `n` newlines more in the row that began before `p₀`. -/
structure MoreNewlines (fs : FileSystem) (n : Nat) (p₀ p q : State Token Val Yy) : Prop where
  first : Flagged p
  second : Flagged q
  path : Path Edge p.stack
  within : Within tables (client fs) p₀ p
  lengthened : Lengthened p₀.stack p.stack
  lengthened' : ∃ base', List.Forall₂ (Entries SameValue) p₀.stack base' ∧ Lengthened base' q.stack
  length : q.stack.length = p.stack.length + n
  look : q.look = p.look
  accepting : p.accepting = false ∧ q.accepting = false
  paired : Paired (LexPairWith SameFiles p.look) p.client q.client

/-- What is known of `p₀`: it is after a newline, and there is room for `n` more states on the
stack until the newlines are reduced. -/
structure RoomFor (fs : FileSystem) (n : Nat) (p₀ : State Token Val Yy) : Prop where
  top : top p₀.stack ∈ afterNewline
  room : ∀ p, Within tables (client fs) p₀ p → p.stack.length + n < tables.maxDepth


section MoreNewlines

variable {fs fs' : FileSystem} {n : Nat} {p₀ p q : State Token Val Yy}

/-- Parsers that are together stay so. -/
theorem Together.goOn (hfs : SameIncludes fs fs') (h : Together SameFiles p q) :
    GoOn fs fs' SameFiles (Together SameFiles) p q :=
  .of_relates (h.step (filesSim_above baseSim_same) (filesActs_above baseSim_same)
    (fun _ => id) fun _ => sameOpens_of_length hfs h.abreast.client.lex.pair.files.length)

theorem MoreNewlines.top_mem (hroom : RoomFor fs n p₀) (h : MoreNewlines fs n p₀ p q) :
    top p.stack ∈ afterNewline ∧ top q.stack ∈ afterNewline := by
  obtain ⟨base', hbase', hlong'⟩ := h.lengthened'
  exact ⟨h.lengthened.top_mem hroom.top, hlong'.top_mem (top_of_entries hbase' ▸ hroom.top)⟩

theorem flagged_lt {p : State Token Val Yy} (h : Flagged p) (htop : top p.stack ∈ afterNewline) :
    p.errflag < 3 := by
  refine h.low.resolve_right fun herr => ?_
  rw [herr] at htop
  exact absurd htop (by decide)

theorem MoreNewlines.fetch (hroom : RoomFor fs n p₀) (h : MoreNewlines fs n p₀ p q)
    (hlook : p.look = none) : GoOn fs fs' SameFiles (MoreNewlines fs n p₀) p q := by
  obtain ⟨htop, htop'⟩ := h.top_mem hroom
  have hp := @step_of_calls _ _ _ tables (client fs) _ p
    ⟨hlook, .inr (defred_afterNewline htop)⟩
  have hq := @step_of_calls _ _ _ tables (client fs') _ q
    ⟨h.look.trans hlook, .inr (defred_afterNewline htop')⟩
  obtain ⟨htoken, hclient⟩ :=
    @Paired.fetch _ _ fs fs' (filesSim_above baseSim_same) _ _ _ h.paired id
  exact .inl ⟨_, _, .single hp, .single hq, h.first.step hp, h.second.step hq, h.path,
    h.within.tail ⟨hp, h.lengthened.suffix⟩, h.lengthened, h.lengthened', h.length,
    congrArg some htoken, h.accepting, hclient⟩

/-- A stack that is full in one of the parsers is full in the other one, and both give up. -/
theorem goOn_of_full {S : State Token Val Yy → State Token Val Yy → Prop}
    {look : Option Token} (hpaired : Paired (LexPairWith SameFiles look) p.client q.client)
    (hp : step tables (client fs) p = .done .abort ((client fs).overflow p.client))
    (hq : step tables (client fs') q = .done .abort ((client fs').overflow q.client)) :
    GoOn fs fs' SameFiles S p q :=
  .inr ⟨_, _, (Ends.of_done hp).2 rfl, (Ends.of_done hq).2 rfl, rfl, look,
    (@keepsAbreast_paired _ _ fs fs' (filesSim_above baseSim_same)
      (filesActs_above baseSim_same)).overflow look _ _ hpaired⟩

/-- Another newline. -/
theorem MoreNewlines.shift (hroom : RoomFor fs n p₀) (h : MoreNewlines fs n p₀ p q)
    (hlook : p.look = some newline) : GoOn fs fs' SameFiles (MoreNewlines fs n p₀) p q := by
  obtain ⟨htop, htop'⟩ := h.top_mem hroom
  have hp := @step_of_shift _ _ _ tables (client fs) _ p 26 _ h.accepting.1
    (defred_afterNewline htop) hlook ((shift_afterNewline htop _).trans (if_pos rfl))
  have hq := @step_of_shift _ _ _ tables (client fs') _ q 26 _ h.accepting.2
    (defred_afterNewline htop') (h.look.trans hlook)
    ((shift_afterNewline htop' _).trans (if_pos rfl))
  have hlength := h.length
  by_cases hfull : tables.maxDepth ≤ p.stack.length + 1
  · refine goOn_of_full h.paired (hp.trans (push_of_le hfull)) (hq.trans (push_of_le ?_))
    exact hlength ▸ (show tables.maxDepth ≤ p.stack.length + n + 1 by omega)
  · have hpush := hp.trans (push_of_lt (Nat.not_le.1 hfull))
    have hlong := h.lengthened.push ((client fs).lval p.client)
    have hwithin := h.within.tail ⟨hpush, hlong.suffix⟩
    have hfit := hroom.room _ hwithin
    have hpush' := hq.trans (push_of_lt (show q.stack.length + 1 < tables.maxDepth by
      simp only [List.length_cons] at hfit
      omega))
    obtain ⟨base', hbase', hlong'⟩ := h.lengthened'
    have hreach : Reaches tables (client fs) p _ := .single hpush
    refine .inl ⟨_, _, .single hpush, .single hpush', h.first.step hpush, h.second.step hpush',
      hreach.path (sound Val) h.path, hwithin, hlong, ⟨base', hbase', hlong'.push _⟩, ?_, rfl,
      h.accepting, h.paired.same, h.paired.lex.pair, by simp⟩
    simp only [List.length_cons]
    omega

/-- The states before the row of newlines. -/
theorem MoreNewlines.together (hroom : RoomFor fs n p₀) (h : MoreNewlines fs n p₀ p q)
    {base' : List (Nat × Val)} (hbase' : List.Forall₂ (Entries SameValue) p₀.stack base') :
    Together SameFiles { p with stack := p₀.stack } { q with stack := base' } := by
  obtain ⟨htop, htop'⟩ := h.top_mem hroom
  have hlt := flagged_lt h.first htop
  have hlt' := flagged_lt h.second htop'
  have hbase := top_of_entries hbase' ▸ hroom.top
  have hflagged {p : State Token Val Yy} (hp : Flagged p) (hlt : p.errflag < 3)
      {base : List (Nat × Val)} (hbase : Yacc.top base ∈ afterNewline) :
      Flagged { p with stack := base } := by
    refine ⟨hp.le, .inl hlt, fun htop => ?_, fun htop => ?_, hp.errors⟩ <;>
    · simp only at htop
      rw [htop] at hbase
      exact absurd hbase (by decide)
  obtain ⟨news, hstack, -⟩ := h.lengthened
  have hpath := h.path.drop news.length
  rw [hstack, List.drop_left] at hpath
  exact ⟨hflagged h.first hlt hroom.top, hflagged h.second hlt' hbase, hpath,
    hbase', h.look, .inr ⟨hlt, hlt'⟩, h.accepting.2.trans h.accepting.1.symm, h.paired⟩

/-- A token that does not fit: both parsers leave the block. -/
theorem MoreNewlines.misfit (hfs : SameIncludes fs fs') (hroom : RoomFor fs n p₀)
    (h : MoreNewlines fs n p₀ p q) {a : Token} (hlook : p.look = some a) (ha : a ≠ newline)
    (hreduce : tables.reduce 26 a = none) : GoOn fs fs' SameFiles (Together SameFiles) p q := by
  obtain ⟨htop, htop'⟩ := h.top_mem hroom
  obtain ⟨base', hbase', hlong'⟩ := h.lengthened'
  have hbase := top_of_entries hbase' ▸ hroom.top
  have hsame {fs : FileSystem} {p : State Token Val Yy} {base : List (Nat × Val)}
      (hp : Flagged p) (hlong : Lengthened base p.stack) (hbase : Yacc.top base ∈ afterNewline)
      (hacc : p.accepting = false) (hlook : p.look = some a) :
      step tables (client fs) p = step tables (client fs) { p with stack := base } := by
    have htop := hlong.top_mem hbase
    have hshift {st : Nat} (hst : st ∈ afterNewline) : tables.shift st a = none :=
      (shift_afterNewline hst a).trans (if_neg ha)
    have hnone {st : Nat} (hst : st ∈ afterNewline) : tables.reduce st a = none :=
      (reduce_afterNewline hst a).1.trans hreduce
    rw [step_of_misfit hacc (defred_afterNewline htop) hlook (hshift htop) (hnone htop),
      @step_of_misfit _ _ _ _ _ _ { p with stack := base } a hacc (defred_afterNewline hbase) hlook
        (hshift hbase) (hnone hbase)]
    have hlt := flagged_lt hp htop
    split
    · exact recover_of_popToError hlong.popToError hlt
    · exact recover_of_popToError hlong.popToError hlt
  have hnext := (h.together hroom hbase').step (filesSim_above baseSim_same)
    (filesActs_above baseSim_same) (fun _ => id)
    fun _ => sameOpens_of_length hfs h.paired.lex.pair.files.length
  rw [← hsame h.first h.lengthened hroom.top h.accepting.1 hlook,
    ← hsame h.second hlong' hbase h.accepting.2 (h.look.trans hlook)] at hnext
  exact .of_relates hnext

/-- Another token of the block: the newlines are reduced. -/
theorem MoreNewlines.collapse (hroom : RoomFor fs n p₀) (h : MoreNewlines fs n p₀ p q) {a : Token}
    (hlook : p.look = some a) (ha : a ≠ newline) (hreduce : tables.reduce 26 a = some 9) :
    GoOn fs fs' SameFiles (Together SameFiles) p q := by
  obtain ⟨htop, htop'⟩ := h.top_mem hroom
  obtain ⟨base', hbase', hlong'⟩ := h.lengthened'
  have hlook' := h.look.trans hlook
  have hlength := h.length
  have hp := @step_optnl fs p htop h.accepting.1 a hlook hreduce ha
  by_cases hfull : tables.maxDepth ≤ p.stack.length + 1
  · have hq := @step_optnl fs' q htop' h.accepting.2 a hlook' hreduce ha
    exact goOn_of_full h.paired (hp.trans (push_of_le hfull)) (hq.trans (push_of_le (by omega)))
  · have hlt := Nat.not_le.1 hfull
    have hfit := hroom.room _ (h.within.tail ⟨hp.trans (push_of_lt hlt),
      h.lengthened.suffix.trans (List.suffix_cons _ _)⟩)
    have hlt' : q.stack.length + 1 < tables.maxDepth := by
      simp only [List.length_cons] at hfit
      omega
    have hbase := top_of_entries hbase'
    obtain ⟨w, hw⟩ := @reachesLater_collapse fs p p₀.stack h.lengthened hroom.top h.accepting.1 a
      hlook hreduce ha hlt
    obtain ⟨w', hw'⟩ := @reachesLater_collapse fs' q base' hlong' (hbase ▸ hroom.top)
      h.accepting.2 a hlook' hreduce ha hlt'
    have htogether := h.together hroom hbase'
    have hreach : Reaches tables (client fs) p _ := hw.to_reflTransGen
    have hreach' : Reaches tables (client fs') q _ := hw'.to_reflTransGen
    refine .inl ⟨_, _, hw, hw', h.first.reaches hreach, h.second.reaches hreach',
      hreach.path (sound Val) h.path, .cons ⟨by rw [hbase], ?_⟩ hbase', h.look,
      htogether.abreast.errflag, htogether.abreast.accepting, h.paired⟩
    exact fun hvalued => absurd hvalued (goto_afterNewline hroom.top)

/-- One step of the argument, or a few: the parsers stay apart by newlines, or come together. -/
theorem MoreNewlines.goOn (hfs : SameIncludes fs fs') (hroom : RoomFor fs n p₀)
    (h : MoreNewlines fs n p₀ p q) :
    GoOn fs fs' SameFiles (fun p q => Together SameFiles p q ∨ MoreNewlines fs n p₀ p q) p q := by
  cases hlook : p.look with
  | none => exact (h.fetch hroom hlook).imp_rel fun _ _ => .inr
  | some a =>
      by_cases ha : a = newline
      · subst ha
        exact (h.shift hroom hlook).imp_rel fun _ _ => .inr
      · cases hreduce : tables.reduce 26 a with
        | none => exact (h.misfit hfs hroom hlook ha hreduce).imp_rel fun _ _ => .inl
        | some m =>
            obtain rfl := (@reduce_afterNewline 26 (by decide) a).2 m hreduce
            exact (h.collapse hroom hlook ha hreduce).imp_rel fun _ _ => .inl

end MoreNewlines

end Ifconfigd.Parse
