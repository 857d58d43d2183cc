import Ifconfigd.Gate.Commands

/-!
# The command loops of `ifconfig_gate` and `ifconfig`

Both programs walk an argument vector: a word that names a command takes its
arguments from the words after it, any other word is an address. This module
models the two loops as they stand in the sources and compares the handler calls
they make.

What the handlers do is left open here. A handler may end the process (`errx`, or
`err` after a failed ioctl), so the loops are run against an arbitrary function
that says, for each history of calls, whether the last one returns.
-/

namespace Ifconfigd.Gate

open CLib

/-- A handler call with its arguments; `none` is a null pointer. -/
inductive Call
  | func (h : Handler) (arg : Option CStr) (param : Int)
  | func2 (h : Handler) (arg1 arg2 : CStr)
  deriving DecidableEq

/-- How a loop ends. -/
inductive Ending
  | finished
  /-- `errx(1, "'%s' requires argument", p->c_name)` -/
  | requiresArgument (name : CStr)
  /-- `errx(1, "'%s' requires 2 arguments", p->c_name)` -/
  | requiresTwoArguments (name : CStr)
  /-- `errx(1, "%s: bad value", *argv)` -/
  | badValue (word : CStr)
  /-- `return bridge_rule(argc, argv, -1)` with the words after `rule` -/
  | bridgeRule (words : List CStr)
  /-- A handler did not return. -/
  | exited
  deriving DecidableEq

/-- The handler calls a loop makes, and how it ends. -/
structure Trace where
  calls : List Call
  ending : Ending
  deriving DecidableEq

/-- Whether the last call of a history ends the process. -/
abbrev Exits := List Call → Bool

/-- Call a handler and go on with the rest of the loop if it returns. -/
def perform (exits : Exits) (hist : List Call) (c : Call) (rest : List Call → Trace) : Trace :=
  if exits (hist ++ [c]) then ⟨hist ++ [c], .exited⟩ else rest (hist ++ [c])

/-- `NEXTARG0` as a number: what a handler gets from a loop that does not know it. -/
def nextarg0Value : Int := 0xffffff

/-- The loop of `ifconfig_gate`. A word past the end of the table reaches the first
positional entry, whatever came before it. -/
def gateLoop (cmds : List Cmd) (exits : Exits) : List CStr → List Call → Trace
  | [], hist => ⟨hist, .finished⟩
  | word :: rest, hist =>
      match lookup cmds word with
      | none => perform exits hist (.func .setifaddr (some word) 0) (gateLoop cmds exits rest)
      | some p =>
          match p.parameter with
          | .nextarg =>
              match rest with
              | [] => ⟨hist, .requiresArgument p.name⟩
              | arg :: rest =>
                  perform exits hist (.func p.func (some arg) 0) (gateLoop cmds exits rest)
          | .nextarg2 =>
              match rest with
              | arg1 :: arg2 :: rest =>
                  perform exits hist (.func2 p.func arg1 arg2) (gateLoop cmds exits rest)
              | _ => ⟨hist, .requiresTwoArguments p.name⟩
          | .nextarg0 =>
              perform exits hist (.func p.func (some word) nextarg0Value)
                (gateLoop cmds exits rest)
          | .value v =>
              perform exits hist (.func p.func (some word) v) (gateLoop cmds exits rest)

/-- The loop of `ifconfig`'s `main`. `setaddr` counts the positional handlers called
so far: the first address word is the address, the second the destination, and a
third is an error. A `NEXTARG0` command takes the next word unless it is missing or
a command. The word `rule` hands the rest of the vector to `bridge_rule`. -/
def ifconfigLoop (cmds : List Cmd) (exits : Exits) : Nat → List CStr → List Call → Trace
  | _, [], hist => ⟨hist, .finished⟩
  | setaddr, word :: rest, hist =>
      if word = .lit "rule" then ⟨hist, .bridgeRule rest⟩
      else
      match lookup cmds word with
      | none =>
          match setaddr with
          | 0 => perform exits hist (.func .setifaddr (some word) 0)
              (ifconfigLoop cmds exits 1 rest)
          | 1 => perform exits hist (.func .setifdstaddr (some word) 0)
              (ifconfigLoop cmds exits 2 rest)
          | _ => ⟨hist, .badValue word⟩
      | some p =>
          match p.parameter with
          | .nextarg0 =>
              match rest with
              | [] => perform exits hist (.func p.func none 0) (ifconfigLoop cmds exits setaddr [])
              | arg :: rest' =>
                  if (lookup cmds arg).isSome then
                    perform exits hist (.func p.func none 0)
                      (ifconfigLoop cmds exits setaddr (arg :: rest'))
                  else
                    perform exits hist (.func p.func (some arg) 0)
                      (ifconfigLoop cmds exits setaddr rest')
          | .nextarg =>
              match rest with
              | [] => ⟨hist, .requiresArgument p.name⟩
              | arg :: rest =>
                  perform exits hist (.func p.func (some arg) 0)
                    (ifconfigLoop cmds exits setaddr rest)
          | .nextarg2 =>
              match rest with
              | arg1 :: arg2 :: rest =>
                  perform exits hist (.func2 p.func arg1 arg2)
                    (ifconfigLoop cmds exits setaddr rest)
              | _ => ⟨hist, .requiresTwoArguments p.name⟩
          | .value v =>
              perform exits hist (.func p.func (some word) v) (ifconfigLoop cmds exits setaddr rest)

/-- The names of `afs`, compiled with or without `INET6`. -/
def afNames (inet6 : Bool) : List CStr :=
  [.lit "inet"] ++ (if inet6 then [.lit "inet6"] else []) ++ [.lit "atalk"]

/-- Both programs take an address family off the front of the vector. -/
def dropAf (inet6 : Bool) : List CStr → List CStr
  | [] => []
  | word :: rest => if word ∈ afNames inet6 then rest else word :: rest

/-- The handler calls of `ifconfig_gate` for an argument vector. -/
def gateCalls (inet6 : Bool) (exits : Exits) (argv : List CStr) : Trace :=
  gateLoop (gateCmds inet6) exits (dropAf inet6 argv) []

/-- `main` of `ifconfig` from the point where the interface is known: with the
family `inet6` it first clears `IFXF_NOINET6`. -/
def ifconfigWords (exits : Exits) (inet6 : Bool) (words : List CStr) (hist : List Call) : Trace :=
  if inet6 ∧ words ≠ [] then
    perform exits hist (.func .setifxflags (some (.lit "inet6")) (-2))
      (ifconfigLoop ifconfigCmds exits 0 words)
  else ifconfigLoop ifconfigCmds exits 0 words hist

/-- The handler calls of `ifconfig` for the same vector, from the initial state. A
leading `create` is treated before the interface is looked at. -/
def ifconfigCalls (exits : Exits) (argv : List CStr) : Trace :=
  let inet6 := argv.head? = some (.lit "inet6")
  match dropAf true argv with
  | [] => ⟨[], .finished⟩
  | word :: rest =>
      if word = .lit "create" then
        perform exits [] (.func .cloneCreate (some word) 0)
          fun hist => if rest = [] then ⟨hist, .finished⟩ else ifconfigWords exits inet6 rest hist
      else ifconfigWords exits inet6 (word :: rest) []

/-! ## Where the loops agree -/

/-- The words the gate reads as commands or addresses, not as arguments, up to a
command whose arguments are missing. -/
def commandWords (cmds : List Cmd) : List CStr → List CStr
  | [] => []
  | word :: rest =>
      match (lookup cmds word).map Cmd.parameter with
      | some .nextarg =>
          match rest with
          | [] => [word]
          | _ :: rest => word :: commandWords cmds rest
      | some .nextarg2 =>
          match rest with
          | _ :: _ :: rest => word :: commandWords cmds rest
          | _ => [word]
      | _ => word :: commandWords cmds rest

/-- A word that both programs read in the same way, as far as it does not depend on
the words before it: both tables have the same row for it, or none, and the row does
not ask for an optional argument. -/
def SameReading (inet6 : Bool) (word : CStr) : Prop :=
  lookup (gateCmds inet6) word = lookup ifconfigCmds word ∧
    (lookup (gateCmds inet6) word).map Cmd.parameter ≠ some .nextarg0

/-- A word that is not a command of the daemon: an address. -/
def IsAddress (inet6 : Bool) (word : CStr) : Prop := lookup (gateCmds inet6) word = none

instance (inet6 : Bool) (word : CStr) : Decidable (SameReading inet6 word) :=
  inferInstanceAs (Decidable (_ ∧ _))

instance (inet6 : Bool) (word : CStr) : Decidable (IsAddress inet6 word) :=
  inferInstanceAs (Decidable (_ = _))

/-- Every command word is read in the same way, and with the `setaddr` addresses
before them the words hold at most one address. -/
def Agrees (inet6 : Bool) (setaddr : Nat) (argv : List CStr) : Prop :=
  (∀ word ∈ commandWords (gateCmds inet6) argv, SameReading inet6 word) ∧
    setaddr + (commandWords (gateCmds inet6) argv).countP (IsAddress inet6 ·) ≤ 1

/-! ## The tables -/

theorem lookup_some {cmds : List Cmd} {word : CStr} {p : Cmd} (h : lookup cmds word = some p) :
    p ∈ cmds ∧ p.name = word := by
  refine ⟨List.mem_of_find?_eq_some h, ?_⟩
  simpa using List.find?_some h

theorem lookup_append (a b : List Cmd) (word : CStr) :
    lookup (a ++ b) word = (lookup a word).or (lookup b word) := by
  simp [lookup, List.find?_append]

@[simp] theorem lookup_nil (word : CStr) : lookup [] word = none := rfl

/-- Two parts of a table that have no command in common. -/
def NamesDisjoint (a b : List Cmd) : Prop := ∀ c ∈ a, ∀ d ∈ b, c.name ≠ d.name

instance (a b : List Cmd) : Decidable (NamesDisjoint a b) :=
  inferInstanceAs (Decidable (∀ c ∈ a, ∀ d ∈ b, c.name ≠ d.name))

theorem lookup_none_of_disjoint {a b : List Cmd} {word : CStr} {p : Cmd}
    (hdisjoint : NamesDisjoint a b) (h : lookup a word = some p) : lookup b word = none := by
  obtain ⟨hmem, rfl⟩ := lookup_some h
  rw [lookup, List.find?_eq_none]
  intro d hd
  simpa using (hdisjoint p hmem d hd).symm

theorem wpapsk_disjoint : NamesDisjoint (cmdsLink ++ cmdsInet6 ++ cmdsRest) cmdsWpapsk := by
  decide +kernel

theorem inet6_disjoint : NamesDisjoint cmdsRest cmdsInet6 := by
  decide +kernel

/-- Every row of the daemon's table is the row `ifconfig` finds under its name: the
rows only `ifconfig` has do not hide any other. -/
theorem lookup_ifconfig_of_gate {inet6 : Bool} {word : CStr} {p : Cmd}
    (h : lookup (gateCmds inet6) word = some p) : lookup ifconfigCmds word = some p := by
  have hwpapsk : ∀ {q}, lookup (cmdsLink ++ cmdsInet6 ++ cmdsRest) word = some q →
      lookup cmdsWpapsk word = none := fun hq => lookup_none_of_disjoint wpapsk_disjoint hq
  have hinet6 : ∀ {q}, lookup cmdsRest word = some q → lookup cmdsInet6 word = none :=
    fun hq => lookup_none_of_disjoint inet6_disjoint hq
  simp only [gateCmds, ifconfigCmds, lookup_append] at h hwpapsk ⊢
  cases hbase : lookup cmdsBase word with
  | some q => simpa [hbase] using h
  | none =>
      cases hlink : lookup cmdsLink word with
      | some q => simpa [hbase, hlink, hwpapsk (by rw [hlink]; rfl)] using h
      | none =>
          cases hin : lookup cmdsInet6 word with
          | some q =>
              have hrest : lookup cmdsRest word = none := by
                by_contra hne
                obtain ⟨r, hr⟩ := Option.ne_none_iff_exists'.mp hne
                rw [hinet6 hr] at hin
                cases hin
              cases inet6 with
              | true => simpa [hbase, hlink, hin, hwpapsk (by rw [hlink, hin]; rfl)] using h
              | false => simp [hbase, hlink, hrest] at h
          | none =>
              have hrest : lookup cmdsRest word = some p := by
                cases inet6 <;> simpa [hbase, hlink, hin] using h
              simp [hrest, hwpapsk (by rw [hlink, hin, hrest]; rfl)]

/-- No command calls a positional handler. -/
theorem func_ne_setifaddr : ∀ p ∈ ifconfigCmds, p.func ≠ .setifaddr := by
  decide +kernel

/-! ## The command words of a vector -/

section CommandWords

variable {cmds : List Cmd} {word : CStr} {p : Cmd}

theorem commandWords_address (rest : List CStr) (h : lookup cmds word = none) :
    commandWords cmds (word :: rest) = word :: commandWords cmds rest := by
  rw [commandWords.eq_def]
  simp [h]

theorem commandWords_value {v : Int} (rest : List CStr) (h : lookup cmds word = some p)
    (hp : p.parameter = .value v) :
    commandWords cmds (word :: rest) = word :: commandWords cmds rest := by
  rw [commandWords.eq_def]
  simp [h, hp]

theorem commandWords_nextarg (arg : CStr) (rest : List CStr) (h : lookup cmds word = some p)
    (hp : p.parameter = .nextarg) :
    commandWords cmds (word :: arg :: rest) = word :: commandWords cmds rest := by
  rw [commandWords.eq_def]
  simp [h, hp]

theorem commandWords_nextarg2 (arg1 arg2 : CStr) (rest : List CStr)
    (h : lookup cmds word = some p) (hp : p.parameter = .nextarg2) :
    commandWords cmds (word :: arg1 :: arg2 :: rest) = word :: commandWords cmds rest := by
  rw [commandWords.eq_def]
  simp [h, hp]

theorem mem_commandWords (rest : List CStr) : word ∈ commandWords cmds (word :: rest) := by
  unfold commandWords
  split
  · split <;> simp
  · split <;> simp
  · simp

end CommandWords

/-- A command word in front: its own reading, then the remaining words. -/
theorem agrees_iff_of_command {inet6 : Bool} {setaddr : Nat} {word : CStr}
    {argv rest : List CStr}
    (hwords : commandWords (gateCmds inet6) argv = word :: commandWords (gateCmds inet6) rest)
    (hcmd : ¬ IsAddress inet6 word) :
    Agrees inet6 setaddr argv ↔ SameReading inet6 word ∧ Agrees inet6 setaddr rest := by
  simp only [Agrees, hwords, List.mem_cons, forall_eq_or_imp, List.countP_cons,
    decide_eq_false hcmd, Bool.false_eq_true, ↓reduceIte, Nat.add_zero, and_assoc]

theorem agrees_iff_of_address {inet6 : Bool} {setaddr : Nat} {word : CStr} {rest : List CStr}
    (haddr : IsAddress inet6 word) :
    Agrees inet6 setaddr (word :: rest) ↔
      SameReading inet6 word ∧ Agrees inet6 (setaddr + 1) rest := by
  rw [Agrees, commandWords_address rest haddr]
  simp only [Agrees, List.mem_cons, forall_eq_or_imp, List.countP_cons, decide_eq_true haddr,
    ↓reduceIte, and_assoc]
  rw [Nat.add_assoc, Nat.add_comm 1]

/-- A command whose arguments are missing. -/
theorem agrees_iff_of_stop {inet6 : Bool} {setaddr : Nat} {word : CStr} {argv : List CStr}
    (hwords : commandWords (gateCmds inet6) argv = [word]) (hcmd : ¬ IsAddress inet6 word) :
    Agrees inet6 setaddr argv ↔ SameReading inet6 word ∧ setaddr ≤ 1 := by
  simp only [Agrees, hwords, List.mem_singleton, forall_eq, List.countP_singleton,
    decide_eq_false hcmd, Bool.false_eq_true, ↓reduceIte, Nat.add_zero]

/-! ## The loops -/

/-- Handlers that all return. -/
def never : Exits := fun _ => false

theorem perform_never (hist : List Call) (c : Call) (rest : List Call → Trace) :
    perform never hist c rest = rest (hist ++ [c]) := rfl

section Steps

variable {cmds : List Cmd} {exits : Exits} {setaddr : Nat} {word : CStr} {p : Cmd}
  {hist : List Call}

theorem gateLoop_address (rest : List CStr) (h : lookup cmds word = none) :
    gateLoop cmds exits (word :: rest) hist =
      perform exits hist (.func .setifaddr (some word) 0) (gateLoop cmds exits rest) := by
  rw [gateLoop.eq_def]
  simp [h]

theorem gateLoop_command (rest : List CStr) (h : lookup cmds word = some p) :
    gateLoop cmds exits (word :: rest) hist =
      match p.parameter, rest with
      | .nextarg, [] => ⟨hist, .requiresArgument p.name⟩
      | .nextarg, arg :: rest =>
          perform exits hist (.func p.func (some arg) 0) (gateLoop cmds exits rest)
      | .nextarg2, arg1 :: arg2 :: rest =>
          perform exits hist (.func2 p.func arg1 arg2) (gateLoop cmds exits rest)
      | .nextarg2, _ => ⟨hist, .requiresTwoArguments p.name⟩
      | .nextarg0, rest =>
          perform exits hist (.func p.func (some word) nextarg0Value) (gateLoop cmds exits rest)
      | .value v, rest =>
          perform exits hist (.func p.func (some word) v) (gateLoop cmds exits rest) := by
  rw [gateLoop.eq_def]
  simp only [h]
  cases p.parameter <;> rcases rest with _ | ⟨a, _ | ⟨b, rest⟩⟩ <;> rfl

theorem gateLoop_nextarg (arg : CStr) (rest : List CStr) (h : lookup cmds word = some p)
    (hp : p.parameter = .nextarg) :
    gateLoop cmds exits (word :: arg :: rest) hist =
      perform exits hist (.func p.func (some arg) 0) (gateLoop cmds exits rest) := by
  rw [gateLoop_command _ h, hp]

theorem gateLoop_value {v : Int} (rest : List CStr) (h : lookup cmds word = some p)
    (hp : p.parameter = .value v) :
    gateLoop cmds exits (word :: rest) hist =
      perform exits hist (.func p.func (some word) v) (gateLoop cmds exits rest) := by
  rw [gateLoop_command _ h, hp]

/-- A command without an optional argument is one and the same step of both
loops. -/
theorem ifconfigLoop_command (rest : List CStr) (hrule : word ≠ .lit "rule")
    (h : lookup cmds word = some p) (hp : p.parameter ≠ .nextarg0) :
    ifconfigLoop cmds exits setaddr (word :: rest) hist =
      match p.parameter, rest with
      | .nextarg, [] => ⟨hist, .requiresArgument p.name⟩
      | .nextarg, arg :: rest =>
          perform exits hist (.func p.func (some arg) 0) (ifconfigLoop cmds exits setaddr rest)
      | .nextarg2, arg1 :: arg2 :: rest =>
          perform exits hist (.func2 p.func arg1 arg2) (ifconfigLoop cmds exits setaddr rest)
      | .nextarg2, _ => ⟨hist, .requiresTwoArguments p.name⟩
      | .nextarg0, rest => ifconfigLoop cmds exits setaddr rest hist
      | .value v, rest =>
          perform exits hist (.func p.func (some word) v)
            (ifconfigLoop cmds exits setaddr rest) := by
  rw [ifconfigLoop.eq_def]
  simp only [h, if_neg hrule]
  cases hparam : p.parameter with
  | nextarg0 => exact absurd hparam hp
  | _ => rcases rest with _ | ⟨a, _ | ⟨b, rest⟩⟩ <;> rfl

theorem ifconfigLoop_nextarg0 (exits : Exits) (setaddr : Nat) (hist : List Call)
    (rest : List CStr) (hrule : word ≠ .lit "rule") (h : lookup cmds word = some p)
    (hp : p.parameter = .nextarg0) :
    ∃ arg rest', ifconfigLoop cmds exits setaddr (word :: rest) hist =
      perform exits hist (.func p.func arg 0) (ifconfigLoop cmds exits setaddr rest') := by
  rw [ifconfigLoop.eq_def]
  simp only [h, hp, if_neg hrule]
  cases rest with
  | nil => exact ⟨none, [], rfl⟩
  | cons arg rest =>
      dsimp only
      split
      · exact ⟨none, arg :: rest, rfl⟩
      · exact ⟨some arg, rest, rfl⟩

theorem ifconfigLoop_address (rest : List CStr) (hrule : word ≠ .lit "rule")
    (h : lookup cmds word = none) :
    ifconfigLoop cmds exits setaddr (word :: rest) hist =
      match setaddr with
      | 0 => perform exits hist (.func .setifaddr (some word) 0) (ifconfigLoop cmds exits 1 rest)
      | 1 => perform exits hist (.func .setifdstaddr (some word) 0)
          (ifconfigLoop cmds exits 2 rest)
      | _ => ⟨hist, .badValue word⟩ := by
  rw [ifconfigLoop.eq_def]
  simp only [h, if_neg hrule]

end Steps

theorem not_isAddress {inet6 : Bool} {word : CStr} {p : Cmd}
    (h : lookup (gateCmds inet6) word = some p) : ¬ IsAddress inet6 word := by
  simp [IsAddress, h]

/-- Where the words are read in the same way, the loops make the same calls. -/
theorem loops_eq_of_agrees {inet6 : Bool} (exits : Exits) {setaddr : Nat} {argv : List CStr}
    (hrule : .lit "rule" ∉ argv) (h : Agrees inet6 setaddr argv) (hist : List Call) :
    gateLoop (gateCmds inet6) exits argv hist =
      ifconfigLoop ifconfigCmds exits setaddr argv hist := by
  induction hn : argv.length using Nat.strong_induction_on generalizing argv setaddr hist with
  | _ n ih =>
    cases argv with
    | nil => simp [gateLoop, ifconfigLoop]
    | cons word rest =>
        -- The step is the same on both sides; the loops go on with a shorter vector.
        have hnext : ∀ {setaddr' rest'}, rest' <:+ rest → Agrees inet6 setaddr' rest' →
            gateLoop (gateCmds inet6) exits rest' =
              ifconfigLoop ifconfigCmds exits setaddr' rest' := by
          intro setaddr' rest' hsuffix hagrees
          funext hist'
          refine ih rest'.length ?_ ?_ hagrees hist' rfl
          · have hlen := hsuffix.length_le
            rw [← hn, List.length_cons]
            omega
          · exact fun hmem => hrule (List.mem_cons_of_mem _ (hsuffix.subset hmem))
        have hword' : word ≠ .lit "rule" := fun heq => hrule (heq ▸ List.mem_cons_self)
        have hword := h.1 word (mem_commandWords rest)
        cases hl : lookup (gateCmds inet6) word with
        | none =>
            rw [gateLoop_address rest hl, ifconfigLoop_address rest hword' (hword.1 ▸ hl)]
            have hrest := ((agrees_iff_of_address hl).mp h).2
            have hzero : setaddr = 0 := by
              have := hrest.2
              omega
            subst hzero
            exact congrArg _ (hnext (List.suffix_refl rest) hrest)
        | some p =>
            have hcmd := not_isAddress hl
            have hp : p.parameter ≠ .nextarg0 := by
              have := hword.2
              rw [hl] at this
              simpa using this
            rw [gateLoop_command rest hl,
              ifconfigLoop_command rest hword' (lookup_ifconfig_of_gate hl) hp]
            cases hparam : p.parameter with
            | nextarg0 => exact absurd hparam hp
            | value v =>
                have hrest := (agrees_iff_of_command (commandWords_value rest hl hparam) hcmd).mp h
                simp only [hnext (List.suffix_refl rest) hrest.2]
            | nextarg =>
                cases rest with
                | nil => rfl
                | cons arg rest =>
                    have hrest := (agrees_iff_of_command
                      (commandWords_nextarg arg rest hl hparam) hcmd).mp h
                    simp only [hnext (List.suffix_cons arg rest) hrest.2]
            | nextarg2 =>
                rcases rest with _ | ⟨arg1, _ | ⟨arg2, rest⟩⟩
                · rfl
                · rfl
                · have hrest := (agrees_iff_of_command
                    (commandWords_nextarg2 arg1 arg2 rest hl hparam) hcmd).mp h
                  simp only [hnext ⟨[arg1, arg2], rfl⟩ hrest.2]

/-! ## Where the loops differ -/

theorem gateLoop_hist (cmds : List Cmd) (exits : Exits) (argv : List CStr) (hist : List Call) :
    ∃ more, (gateLoop cmds exits argv hist).calls = hist ++ more := by
  induction hn : argv.length using Nat.strong_induction_on generalizing argv hist with
  | _ n ih =>
    have hnext : ∀ c rest, rest.length < n →
        ∃ more, (perform exits hist c (gateLoop cmds exits rest)).calls = hist ++ more := by
      intro c rest hlen
      rw [perform]
      split
      · exact ⟨[c], rfl⟩
      · obtain ⟨more, hmore⟩ := ih rest.length hlen rest (hist ++ [c]) rfl
        exact ⟨c :: more, by rw [hmore, List.append_assoc]; rfl⟩
    cases argv with
    | nil => exact ⟨[], by simp [gateLoop]⟩
    | cons word rest =>
        rw [List.length_cons] at hn
        cases hl : lookup cmds word with
        | none =>
            rw [gateLoop_address rest hl]
            exact hnext _ _ (by omega)
        | some p =>
            rw [gateLoop_command rest hl]
            split
            all_goals first
              | exact ⟨[], (List.append_nil hist).symm⟩
              | exact hnext _ _ (by grind)

theorem ifconfigLoop_hist (cmds : List Cmd) (setaddr : Nat) (argv : List CStr)
    (hist : List Call) :
    ∃ more, (ifconfigLoop cmds never setaddr argv hist).calls = hist ++ more := by
  induction hn : argv.length using Nat.strong_induction_on generalizing argv setaddr hist with
  | _ n ih =>
    have hnext : ∀ c setaddr rest, rest.length < n → ∃ more,
        (perform never hist c (ifconfigLoop cmds never setaddr rest)).calls = hist ++ more := by
      intro c setaddr rest hlen
      obtain ⟨more, hmore⟩ := ih rest.length hlen setaddr rest (hist ++ [c]) rfl
      exact ⟨c :: more, by rw [perform_never, hmore, List.append_assoc]; rfl⟩
    cases argv with
    | nil => exact ⟨[], by simp [ifconfigLoop]⟩
    | cons word rest =>
        rw [List.length_cons] at hn
        rw [ifconfigLoop.eq_def]
        dsimp only
        repeat' split
        all_goals first
          | exact ⟨[], (List.append_nil hist).symm⟩
          | exact hnext _ _ _ (by grind)

/-- Two runs that make different calls next cannot end with the same trace. -/
theorem call_eq_of_hist {hist more more' : List Call} {c c' : Call} {t t' : Trace}
    (ht : t.calls = (hist ++ [c]) ++ more) (ht' : t'.calls = (hist ++ [c']) ++ more')
    (h : t = t') : c = c' := by
  rw [h, ht', List.append_assoc, List.append_assoc] at ht
  exact ((List.cons.inj (List.append_cancel_left ht)).1).symm

theorem hist_ne_call {hist more : List Call} {c : Call} {t : Trace} {e : Ending}
    (ht : t.calls = (hist ++ [c]) ++ more) : t ≠ ⟨hist, e⟩ := by
  rintro rfl
  have := congrArg List.length ht
  simp at this

/-- The handler of a call. -/
def Call.handler : Call → Handler
  | .func h _ _ => h
  | .func2 h _ _ => h

/-- A command word makes `ifconfig` call the handler of its row, or stop. -/
theorem ifconfigLoop_command_cases {cmds : List Cmd} {word : CStr} {p : Cmd} (setaddr : Nat)
    (hist : List Call) (rest : List CStr) (h : lookup cmds word = some p) :
    (∃ e, ifconfigLoop cmds never setaddr (word :: rest) hist = ⟨hist, e⟩) ∨
      ∃ c more, c.handler = p.func ∧
        (ifconfigLoop cmds never setaddr (word :: rest) hist).calls = (hist ++ [c]) ++ more := by
  have hcall : ∀ c rest, c.handler = p.func → ∃ c' more, c'.handler = p.func ∧
      (perform never hist c (ifconfigLoop cmds never setaddr rest)).calls =
        (hist ++ [c']) ++ more := by
    intro c rest hc
    obtain ⟨more, hmore⟩ := ifconfigLoop_hist cmds setaddr rest (hist ++ [c])
    exact ⟨c, more, hc, hmore⟩
  rw [ifconfigLoop.eq_def]
  simp only [h]
  repeat' split
  all_goals first
    | exact Or.inl ⟨_, rfl⟩
    | exact Or.inr (hcall _ _ rfl)

/-- Loops that make the same calls, whatever the handlers do, read every command word
in the same way. -/
theorem agrees_of_loops_eq {inet6 : Bool} {setaddr : Nat} (hset : setaddr ≤ 1)
    {argv : List CStr} {hist : List Call} (hrule : .lit "rule" ∉ argv)
    (h : gateLoop (gateCmds inet6) never argv hist =
      ifconfigLoop ifconfigCmds never setaddr argv hist) :
    Agrees inet6 setaddr argv := by
  induction hn : argv.length using Nat.strong_induction_on generalizing argv setaddr hist with
  | _ n ih =>
    cases argv with
    | nil => exact ⟨by simp [commandWords], by simpa [commandWords] using hset⟩
    | cons word rest =>
        rw [List.length_cons] at hn
        have hword : word ≠ .lit "rule" := fun heq => hrule (heq ▸ List.mem_cons_self)
        have hrest : .lit "rule" ∉ rest := fun hmem => hrule (List.mem_cons_of_mem _ hmem)
        cases hl : lookup (gateCmds inet6) word with
        | none =>
            rw [gateLoop_address rest hl, perform_never] at h
            obtain ⟨more, hmore⟩ := gateLoop_hist (gateCmds inet6) never rest
              (hist ++ [.func .setifaddr (some word) 0])
            cases hf : lookup ifconfigCmds word with
            | none =>
                rw [ifconfigLoop_address rest hword hf] at h
                have hsame : SameReading inet6 word := ⟨by rw [hl, hf], by simp [hl]⟩
                match setaddr, hset, h with
                | 0, _, h =>
                    exact (agrees_iff_of_address hl).mpr
                      ⟨hsame, ih rest.length (by omega) le_rfl hrest h rfl⟩
                | 1, _, h =>
                    obtain ⟨more', hmore'⟩ := ifconfigLoop_hist ifconfigCmds 2 rest
                      (hist ++ [.func .setifdstaddr (some word) 0])
                    cases call_eq_of_hist hmore hmore' h
            | some p =>
                have hne := func_ne_setifaddr p (lookup_some hf).1
                rcases ifconfigLoop_command_cases setaddr hist rest hf with
                  ⟨e, hstop⟩ | ⟨c, more', hhandler, hmore'⟩
                · exact absurd (h.trans hstop) (hist_ne_call hmore)
                · have hc := call_eq_of_hist hmore hmore' h
                  rw [← hc] at hhandler
                  exact absurd hhandler.symm hne
        | some p =>
            have hf := lookup_ifconfig_of_gate hl
            have hcmd := not_isAddress hl
            rw [gateLoop_command rest hl] at h
            by_cases hp : p.parameter = .nextarg0
            · obtain ⟨arg, rest', hstep⟩ := ifconfigLoop_nextarg0 never setaddr
                hist rest hword hf hp
              rw [hp, hstep] at h
              obtain ⟨more, hmore⟩ := gateLoop_hist (gateCmds inet6) never rest
                (hist ++ [.func p.func (some word) nextarg0Value])
              obtain ⟨more', hmore'⟩ := ifconfigLoop_hist ifconfigCmds setaddr rest'
                (hist ++ [.func p.func arg 0])
              have hc := call_eq_of_hist hmore hmore' h
              injection hc with _ _ hparam
              exact absurd hparam (by decide)
            · have hsame : SameReading inet6 word := ⟨by rw [hl, hf], by simpa [hl] using hp⟩
              rw [ifconfigLoop_command rest hword hf hp] at h
              cases hparam : p.parameter with
              | nextarg0 => exact absurd hparam hp
              | value v =>
                  rw [hparam] at h
                  exact (agrees_iff_of_command (commandWords_value rest hl hparam) hcmd).mpr
                    ⟨hsame, ih rest.length (by omega) hset hrest h rfl⟩
              | nextarg =>
                  rw [hparam] at h
                  cases rest with
                  | nil =>
                      have hwords : commandWords (gateCmds inet6) [word] = [word] := by
                        rw [commandWords.eq_def]
                        simp [hl, hparam]
                      exact (agrees_iff_of_stop hwords hcmd).mpr ⟨hsame, hset⟩
                  | cons arg rest =>
                      rw [List.length_cons] at hn
                      have htail := fun hmem => hrest (List.mem_cons_of_mem arg hmem)
                      exact (agrees_iff_of_command
                        (commandWords_nextarg arg rest hl hparam) hcmd).mpr
                          ⟨hsame, ih rest.length (by omega) hset htail h rfl⟩
              | nextarg2 =>
                  rw [hparam] at h
                  rcases rest with _ | ⟨arg1, _ | ⟨arg2, rest⟩⟩
                  · have hwords : commandWords (gateCmds inet6) [word] = [word] := by
                      rw [commandWords.eq_def]
                      simp [hl, hparam]
                    exact (agrees_iff_of_stop hwords hcmd).mpr ⟨hsame, hset⟩
                  · have hwords : commandWords (gateCmds inet6) [word, arg1] = [word] := by
                      rw [commandWords.eq_def]
                      simp [hl, hparam]
                    exact (agrees_iff_of_stop hwords hcmd).mpr ⟨hsame, hset⟩
                  · simp only [List.length_cons] at hn
                    have htail := fun hmem => hrest
                      (List.mem_cons_of_mem arg1 (List.mem_cons_of_mem arg2 hmem))
                    exact (agrees_iff_of_command
                      (commandWords_nextarg2 arg1 arg2 rest hl hparam) hcmd).mpr
                        ⟨hsame, ih rest.length (by omega) hset htail h rfl⟩

/-! ## Whole argument vectors -/

theorem dropAf_eq (inet6 : Bool) {argv : List CStr} (h : .lit "inet6" ∉ argv) :
    dropAf true argv = dropAf inet6 argv := by
  cases argv with
  | nil => rfl
  | cons word rest =>
      have hne : word ≠ .lit "inet6" := fun heq => h (heq ▸ List.mem_cons_self)
      cases inet6 with
      | true => rfl
      | false => simp [dropAf, afNames, hne]

theorem dropAf_subset (inet6 : Bool) (argv : List CStr) : dropAf inet6 argv ⊆ argv := by
  cases argv with
  | nil => simp [dropAf]
  | cons word rest =>
      rw [dropAf]
      split
      · exact List.subset_cons_self word rest
      · exact List.Subset.refl _

/-- Without `create` and `inet6` in the vector, `ifconfig` is its command loop. -/
theorem ifconfigCalls_eq_loop (exits : Exits) {argv : List CStr}
    (hcreate : .lit "create" ∉ argv) (hinet6 : .lit "inet6" ∉ argv) :
    ifconfigCalls exits argv = ifconfigLoop ifconfigCmds exits 0 (dropAf true argv) [] := by
  have hhead : argv.head? ≠ some (.lit "inet6") := by
    intro h
    exact hinet6 (List.mem_of_mem_head? h)
  have hwords : ∀ words hist, ifconfigWords exits (decide (argv.head? = some (.lit "inet6")))
      words hist = ifconfigLoop ifconfigCmds exits 0 words hist := by
    intro words hist
    simp [ifconfigWords, hhead]
  rw [ifconfigCalls]
  cases hdrop : dropAf true argv with
  | nil => simp [ifconfigLoop]
  | cons word rest =>
      have hne : word ≠ .lit "create" := by
        rintro rfl
        exact hcreate (dropAf_subset true argv (hdrop ▸ List.mem_cons_self))
      simp only [if_neg hne]
      exact hwords _ _

/-- For vectors without `create`, `rule` and `inet6`, the gate makes the handler calls
of `ifconfig`, and rejects what `ifconfig` rejects, whatever the handlers do, exactly
if at the positions of commands there is no command with an optional argument, no
command the daemon's table lacks, and at most one address. -/
theorem gateCalls_eq_ifconfigCalls_iff (inet6 : Bool) {argv : List CStr}
    (hcreate : .lit "create" ∉ argv) (hrule : .lit "rule" ∉ argv)
    (hinet6 : .lit "inet6" ∉ argv) :
    (∀ exits, gateCalls inet6 exits argv = ifconfigCalls exits argv) ↔
      Agrees inet6 0 (dropAf inet6 argv) := by
  have hrule' : .lit "rule" ∉ dropAf inet6 argv := fun h => hrule (dropAf_subset inet6 argv h)
  constructor
  · intro h
    have hnever := h never
    rw [ifconfigCalls_eq_loop never hcreate hinet6, dropAf_eq inet6 hinet6] at hnever
    exact agrees_of_loops_eq (Nat.zero_le 1) hrule' hnever
  · intro h exits
    rw [ifconfigCalls_eq_loop exits hcreate hinet6, dropAf_eq inet6 hinet6]
    exact loops_eq_of_agrees exits hrule' h []

/-- An address with its netmask is read alike. -/
theorem gateCalls_eq_ifconfigCalls_iff_netmask :
    let argv : List CStr := [.lit "inet", .lit "10.0.0.1", .lit "netmask", .lit "255.0.0.0", .lit "up"]
    ∀ exits, gateCalls false exits argv = ifconfigCalls exits argv := by
  intro argv
  exact (gateCalls_eq_ifconfigCalls_iff false (by decide) (by decide) (by decide)).mpr
    ⟨by decide +kernel, by decide +kernel⟩

/-- `chan 6`: the gate hands the command word itself to `setifchan` and takes the
channel number for an address. -/
theorem gate_misreads_chan :
    let argv : List CStr := [.lit "chan", .lit "6"]
    gateCalls false never argv =
        ⟨[.func .setifchan (some (.lit "chan")) 0xffffff, .func .setifaddr (some (.lit "6")) 0],
          .finished⟩ ∧
      ifconfigCalls never argv = ⟨[.func .setifchan (some (.lit "6")) 0], .finished⟩ ∧
      gateCalls false never argv ≠ ifconfigCalls never argv := by
  decide +kernel

end Ifconfigd.Gate
