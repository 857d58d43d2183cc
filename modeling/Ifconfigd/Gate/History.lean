import Ifconfigd.Gate.Names

/-!
# Calls of `ifconfig_gate` one after the other

The globals outlive a call. An address, its mask or a deletion that one call noted is
part of the next call, for whatever interface, and so are a media word, a vlan tag and
a scan. A run in which no earlier call used a command that notes something leaves the
globals as they were, and the next call makes the ioctls it would make in a new process.
-/

namespace Ifconfigd.Gate

open CLib Dialogue Proc

/-! ## Commands that note nothing -/

/-- Whether a handler writes globals that a later call reads. -/
def leavesNote (af : Family) : Handler → Bool
  | .setifaddr | .notealias | .setifnetmask | .setifbroadaddr | .setifdstaddr | .setifipdst
  | .setmedia | .setmediaopt | .unsetmediaopt | .setmediamode | .setmediainst
  | .setvlantag | .setifscan => true
  | .setifprefixlen => af = .inet
  | _ => false

/-- Every word that is not an argument is a command that notes nothing. -/
def Forgetful (argv : List (Option CStr)) : Prop :=
  ∀ word ∈ commandWords (gateCmds false) (dropAf false (wordsOf argv)),
    leavesNote ((rafp argv).getD .inet)
      (((lookup (gateCmds false) word).map Cmd.func).getD .setifaddr) = false

instance (argv : List (Option CStr)) : Decidable (Forgetful argv) :=
  inferInstanceAs (Decidable (∀ word ∈ _, _ = _))

/-- A call of `ifconfig_gate`. -/
structure GateCall where
  argv : List (Option CStr)
  iface : CStr

/-- The globals after some calls that all returned, whatever the kernel answered. -/
inductive After (size : Nat) : List GateCall → Memory → Prop
  | start : After size [] .initial
  | call {past : List GateCall} {m m' : Memory} (world : World) (c : GateCall)
      {answers rest : List Answer} (h : After size past m)
      (hreturns : ((gateIoctls world size c.argv c.iface m).run answers).2 = .returned m' rest) :
      After size (past ++ [c]) m'

/-- The handler calls of the loop belong to the command words. -/
theorem handler_of_mem_calls {cmds : List Cmd} {words : List CStr} {hist : List Call} {c : Call}
    (h : c ∈ (gateLoop cmds never words hist).calls) :
    c ∈ hist ∨ ∃ word ∈ commandWords cmds words,
      ((lookup cmds word).map Cmd.func).getD .setifaddr = c.handler := by
  induction hn : words.length using Nat.strong_induction_on generalizing words hist with
  | _ n ih =>
    cases words with
    | nil => exact .inl (by simpa [gateLoop] using h)
    | cons word rest =>
        -- the call for `word` itself, or one for the words `rest'` after its arguments
        have hnext : ∀ d rest', rest'.length < n →
            ((lookup cmds word).map Cmd.func).getD .setifaddr = d.handler →
            commandWords cmds (word :: rest) = word :: commandWords cmds rest' →
            c ∈ (perform never hist d (gateLoop cmds never rest')).calls →
            c ∈ hist ∨ ∃ word' ∈ commandWords cmds (word :: rest),
              ((lookup cmds word').map Cmd.func).getD .setifaddr = c.handler := by
          intro d rest' hlen hd hwords hc
          rw [perform_never] at hc
          rw [hwords]
          rcases ih rest'.length hlen hc rfl with hmem | ⟨word', hmem, hword'⟩
          · rcases List.mem_append.1 hmem with hmem | hmem
            · exact .inl hmem
            · obtain rfl := List.mem_singleton.1 hmem
              exact .inr ⟨word, List.mem_cons_self, hd⟩
          · exact .inr ⟨word', List.mem_cons_of_mem word hmem, hword'⟩
        rw [List.length_cons] at hn
        cases hl : lookup cmds word with
        | none =>
            rw [gateLoop_address rest hl] at h
            exact hnext _ rest (by omega) (by rw [hl]; rfl) (commandWords_address rest hl) h
        | some p =>
            rw [gateLoop_command rest hl] at h
            split at h
            case h_1 | h_4 => exact .inl h
            case h_2 arg rest' hp =>
              exact hnext _ rest' (by grind) (by rw [hl]; rfl)
                (commandWords_nextarg arg rest' hl hp) h
            case h_3 arg₁ arg₂ rest' hp =>
              exact hnext _ rest' (by grind) (by rw [hl]; rfl)
                (commandWords_nextarg2 arg₁ arg₂ rest' hl hp) h
            case h_5 hp =>
              refine hnext _ _ (by omega) (by rw [hl, Call.handler]; rfl) ?_ h
              rw [commandWords.eq_def]
              simp [hl, hp]
            case h_6 hp =>
              refine hnext _ _ (by omega) (by rw [hl, Call.handler]; rfl) ?_ h
              exact commandWords_value _ hl hp

theorem leavesNote_of_forgetful {argv : List (Option CStr)} (h : Forgetful argv) {iface : CStr}
    {c : Call} (hc : c ∈ (ifconfigGate false .never argv iface []).1) :
    leavesNote ((rafp argv).getD .inet) c.handler = false := by
  have hcalls : c ∈ (gateLoop (gateCmds false) never (dropAf false (wordsOf argv)) []).calls := by
    rw [ifconfigGate] at hc
    split at hc
    · cases hc
    · dsimp only at hc
      split at hc
      · split at hc
        · exact hc
        · split at hc <;> exact hc
      · exact hc
      · exact hc
  rcases handler_of_mem_calls hcalls with hmem | ⟨word, hword, hhandler⟩
  · cases hmem
  · rw [← hhandler]
    exact h word hword

/-! ## What such a call leaves -/

/-- A program that leaves the globals other than `ifr` as `m`. -/
abbrev Leaves (m : Memory) (p : Code Globals) : Prop :=
  p.Keeps (fun _ => True) (·.toMemory = m)

section Leaves

variable {world : World} {name : CStr} {g : Globals} {m : Memory}

theorem follow_leaves (choose : List Answer → Nat → Choice) (pieces : List Piece)
    (given : List Answer) (h : g.toMemory = m) :
    Leaves m (follow choose name pieces given g) := by
  induction pieces generalizing given g with
  | nil => exact h
  | cons p rest ih =>
      unfold follow
      split
      · exact h
      · trivial
      · split
        · exact ih given h
        · exact h
      · split
        all_goals exact keeps_query_bind trivial fun a => ih _ h

theorem setifflags_leaves (value : Int) (h : g.toMemory = m) :
    Leaves m (setifflags name value g) := by
  refine keeps_query_bind trivial fun a => ?_
  split
  · trivial
  · refine keeps_query_bind trivial fun b => ?_
    split
    · trivial
    · exact h

theorem setifxflags_leaves (value : Int) (h : g.toMemory = m) :
    Leaves m (setifxflags name value g) :=
  keeps_query_bind trivial fun _ => keeps_query_bind trivial fun _ => h

theorem setvlandev_leaves (val : CStr) (h : g.toMemory = m) :
    Leaves m (setvlandev world val g) := by
  refine keeps_query_bind trivial fun a => ?_
  split
  · trivial
  · refine keeps_ofOption_bind fun tag _ => keeps_query_bind trivial fun b => ?_
    split
    · trivial
    · exact h

/-- A handler that notes nothing leaves the globals alone. -/
theorem func_leaves {af : Family} {handler : Handler} (arg : CStr) (param : Int)
    (hnote : leavesNote af handler = false) (h : g.toMemory = m) :
    Leaves m (func world af name handler arg param g) := by
  unfold func
  split
  case h_1 => exact setifflags_leaves param h
  case h_2 => exact setifxflags_leaves param h
  case h_8 =>
    cases af with
    | inet => cases hnote
    | atalk => exact h
  case h_16 => exact setvlandev_leaves arg h
  case h_18 => exact follow_leaves _ _ _ h
  all_goals cases hnote

theorem actionOf_eq_nil {af : Family} {handler : Handler}
    (hnote : leavesNote af handler = false) : actionOf handler = [] := by
  cases handler <;> first | rfl | cases hnote

theorem round_leaves {af : Family} {c : Call} (hnote : leavesNote af c.handler = false)
    (h : g.toMemory = m) : Leaves m (round world af name g c) := by
  unfold round
  split
  next handler arg param =>
    refine (func_leaves arg param hnote h).bind fun g' hg' => ?_
    have hactions : actionOf handler = [] := actionOf_eq_nil hnote
    rw [hactions, List.append_nil]
    exact hg'
  · trivial
  · exact follow_leaves _ _ _ h

/-- With nothing noted, nothing is done after the loop. -/
theorem after_loop_of_initial (af : Option Family) (hg : g.toMemory = .initial) :
    Leaves .initial (processMediaCommands name g) ∧ Leaves .initial (deleteAddr name af g) ∧
      Leaves .initial (addAddr name af g) := by
  obtain ⟨m, ifrName⟩ := g
  obtain rfl : m = .initial := hg
  exact ⟨rfl, rfl, rfl⟩

/-- A call that notes nothing, made when nothing is noted. -/
theorem gateIoctls_leaves (size : Nat) {argv : List (Option CStr)} (iface : CStr)
    (h : Forgetful argv) :
    (gateIoctls world size argv iface .initial).Keeps (fun _ => True) (· = .initial) := by
  unfold gateIoctls
  split
  · trivial
  · split
    · trivial
    · refine (keeps_true _).bind fun _ _ => ?_
      refine Keeps.bind (R := fun g : Globals => g.toMemory = .initial)
        (Keeps.foldlM (fun c hc g hg => round_leaves (leavesNote_of_forgetful h hc) hg) rfl)
        fun g hg => ?_
      split
      · exact (after_loop_of_initial none hg).1.bind fun g hg =>
          (after_loop_of_initial (rafp argv) hg).2.1.bind fun g hg =>
            (after_loop_of_initial (rafp argv) hg).2.2.bind fun g hg => hg
      · trivial

end Leaves

/-- After calls that note nothing, the globals are those of a new process. -/
theorem initial_of_forgetful {size : Nat} {past : List GateCall} {m : Memory}
    (h : After size past m) (hpast : ∀ c ∈ past, Forgetful c.argv) : m = .initial := by
  induction h with
  | start => rfl
  | call world c _ hreturns ih =>
      obtain rfl := ih fun d hd => hpast d (List.mem_append_left _ hd)
      have hforget := hpast c (List.mem_append_right _ List.mem_cons_self)
      exact ((gateIoctls_leaves size c.iface hforget).run _).2 _ _ hreturns

/-- A world that knows one address. -/
def World.lan : World :=
  { World.silent with inetAddr := fun s => if s = .lit "10.0.0.5" then some [10, 0, 0, 5] else none }

/-- The kernel's answers for an interface that is not a bridge, with `n` more after those to
`getinfo`. -/
def plainAnswers (n : Nat) : List Answer :=
  List.replicate 4 ⟨none, 0, []⟩ ++ ⟨some .other, 0, []⟩ :: List.replicate (n + 2) ⟨none, 0, []⟩

end Ifconfigd.Gate
