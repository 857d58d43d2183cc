import Ifconfigd.Monitor.Leftovers

/-!
# The WPA vector is read as it was written

`connect_wireless` writes the access to a network as a list of words, and
`ifconfig_gate` finds the commands again by looking at the words alone. A word that is
the argument of a command is never looked at as a command, so the values of a section
may be any strings.
-/

namespace Ifconfigd.Connect

open CLib Gate

/-- The loop of `ifconfig_gate` takes the words apart into pieces, in order, and makes one
call for each piece. -/
inductive Decodes (cmds : List Cmd) (exits : Exits) : List CStr → List Call → Prop
  | nil : Decodes cmds exits [] []
  | cons {piece words : List CStr} {c : Call} {calls : List Call} (hpiece : piece ≠ [])
      (hstep : ∀ rest hist, gateLoop cmds exits (piece ++ rest) hist =
        perform exits hist c (gateLoop cmds exits rest)) :
      Decodes cmds exits words calls → Decodes cmds exits (piece ++ words) (c :: calls)

section Decodes

variable {cmds : List Cmd} {exits : Exits} {words : List CStr} {calls : List Call}

/-- The calls are made one after the other, and no word is left. -/
theorem Decodes.gateLoop_eq (h : Decodes cmds exits words calls) (hist : List Call) :
    gateLoop cmds exits words hist = performAll exits hist calls fun hist => ⟨hist, .finished⟩ := by
  induction h generalizing hist with
  | nil => simp [gateLoop, performAll]
  | cons _ hstep _ ih =>
      rw [hstep, performAll]
      exact congrArg _ (funext ih)

theorem Decodes.append {words' : List CStr} {calls' : List Call}
    (h : Decodes cmds exits words calls) (h' : Decodes cmds exits words' calls') :
    Decodes cmds exits (words ++ words') (calls ++ calls') := by
  induction h with
  | nil => exact h'
  | cons hpiece hstep _ ih =>
      rw [List.append_assoc]
      exact .cons hpiece hstep ih

/-- A command and its argument. -/
theorem decodes_nextarg {word : CStr} {row : Cmd} (h : lookup cmds word = some row)
    (hrow : row.parameter = .nextarg) (value : CStr) :
    Decodes cmds exits [word, value] [.func row.func (some value) 0] :=
  @Decodes.cons _ _ [word, value] _ _ _ (by simp)
    (fun rest _ => gateLoop_nextarg value rest h hrow) .nil

/-- A command of which the section may lack the argument. -/
theorem decodes_optional {word : CStr} {row : Cmd} (h : lookup cmds word = some row)
    (hrow : row.parameter = .nextarg) (value : Option CStr) :
    Decodes cmds exits (wordsOf (optional word value))
      (value.toList.map fun v => .func row.func (some v) 0) := by
  cases value with
  | none => exact .nil
  | some v => exact decodes_nextarg h hrow v

end Decodes

/-- The calls a section's access to its network asks for. -/
def joinCalls (nwid key : CStr) (wpa : WpaCfg) : List Call :=
  [.func .setifnwid (some nwid) 0, .func .setifwpa (some (.lit "wpa")) 1] ++
    (wpa.wpaakms.toList.map fun v => .func .setifwpaakms (some v) 0) ++
    (wpa.wpaciphers.toList.map fun v => .func .setifwpaciphers (some v) 0) ++
    (wpa.wpagroupcipher.toList.map fun v => .func .setifwpagroupcipher (some v) 0) ++
    [.func .setifwpakey (some key) 0]

/-- The number of slots of `todo`. -/
def todoSize : Nat := 11

theorem wordsOf_map_some (words : List CStr) : wordsOf (words.map some) = words := by
  induction words with
  | nil => rfl
  | cons word words ih => rw [List.map_cons, wordsOf, ih]

/-- The words of a vector with a network id and a key. -/
def joinWords (nwid key : CStr) (wpa : WpaCfg) : List CStr :=
  [.lit "nwid", nwid] ++ [.lit "wpa"] ++ wordsOf (optional (.lit "wpaakms") wpa.wpaakms) ++
    wordsOf (optional (.lit "wpaciphers") wpa.wpaciphers) ++
    wordsOf (optional (.lit "wpagroupcipher") wpa.wpagroupcipher) ++ [.lit "wpakey", key]

theorem wpaArgv_eq {nwid key : CStr} {wpa : WpaCfg} (hkey : wpa.wpakey = some key) :
    wpaArgv (some nwid) wpa = (joinWords nwid key wpa).map some := by
  rw [wpaArgv, wpaOptions, hkey, joinWords]
  cases wpa.wpaakms <;> cases wpa.wpaciphers <;> cases wpa.wpagroupcipher <;> rfl

theorem decodes_joinWords (inet6 : Bool) (exits : Exits) (nwid key : CStr) (wpa : WpaCfg) :
    Decodes (gateCmds inet6) exits (joinWords nwid key wpa) (joinCalls nwid key wpa) := by
  obtain ⟨-, -, hnwid, hwpa⟩ := lookup_access inet6
  obtain ⟨hakms, hciphers, hgroup, hkey⟩ := lookup_options inet6
  have hwpa' : Decodes (gateCmds inet6) exits [.lit "wpa"]
      [.func .setifwpa (some (.lit "wpa")) 1] :=
    @Decodes.cons _ _ [CStr.lit "wpa"] _ _ _ (by simp)
      (fun rest _ => gateLoop_value rest hwpa rfl) .nil
  have hstart := (decodes_nextarg hnwid rfl nwid).append hwpa'
  have hoptions := ((hstart.append (decodes_optional hakms rfl wpa.wpaakms)).append
    (decodes_optional hciphers rfl wpa.wpaciphers)).append
    (decodes_optional hgroup rfl wpa.wpagroupcipher)
  exact hoptions.append (decodes_nextarg hkey rfl key)

theorem joinWords_length (nwid key : CStr) (wpa : WpaCfg) :
    (joinWords nwid key wpa).length ≤ todoSize := by
  rw [joinWords]
  cases wpa.wpaakms <;> cases wpa.wpaciphers <;> cases wpa.wpagroupcipher <;>
    simp [optional, wordsOf, todoSize]

/-- A vector that decodes: the gate makes its calls, and without an early end it returns
after them. -/
theorem ifconfigGate_of_decodes {inet6 : Bool} {words : List CStr} {calls : List Call}
    (hdrop : dropAf inet6 words = words)
    (h : ∀ exits, Decodes (gateCmds inet6) exits words calls) (env : Env) {name : CStr}
    (hname : name.length < ifnamsiz) (hist : List Call) :
    (ifconfigGate inet6 env (words.map some) name hist).1 = made env.exits hist calls ∧
      ifconfigGate inet6 .never (words.map some) name hist = (hist ++ calls, .running) := by
  constructor
  · rw [ifconfigGate_calls _ hname, wordsOf_map_some, hdrop, (h env.exits).gateLoop_eq,
      performAll_calls]
  · rw [ifconfigGate, if_neg (Nat.not_le.2 hname), wordsOf_map_some, hdrop,
      show Env.never.exits = never from rfl, (h never).gateLoop_eq, performAll_never]
    simp [Env.never]

/-- For every wireless section with a network id and a key, whatever its strings are: the
vector for joining the network fits in its array, and `ifconfig_gate` takes it apart into
the calls the section asks for. On an interface whose name is not refused it makes these
calls, up to the first one that ends the process. -/
theorem wpa_vector_decodes (inet6 : Bool) (env : Env) (name : CStr) (hist : List Call)
    (w : Wireless StaticCfg WpaCfg) {nwid key : CStr} {wpa : WpaCfg} (hnwid : w.nwid = some nwid)
    (hwpa : w.wpa = some wpa) (hkey : wpa.wpakey = some key) :
    ∃ argv words, accessArgvs w = w.lladdr.toList.map lladdrArgv ++ [cleanupArgv, argv] ∧
      argv = words.map some ∧ argv.length ≤ todoSize ∧ dropAf inet6 words = words ∧
      Decodes (gateCmds inet6) env.exits words (joinCalls nwid key wpa) ∧
      (ifconfigGate inet6 env argv name hist).1 =
        (if ifnamsiz ≤ name.length then hist
        else made env.exits hist (joinCalls nwid key wpa)) ∧
      ifconfigGate inet6 .never argv name hist =
        (if ifnamsiz ≤ name.length then (hist, .errx)
        else (hist ++ joinCalls nwid key wpa, .running)) := by
  have hdrop : dropAf inet6 (joinWords nwid key wpa) = joinWords nwid key wpa :=
    dropAf_access inet6 _ _ (by simp)
  have hdecodes := fun exits => decodes_joinWords inet6 exits nwid key wpa
  refine ⟨(joinWords nwid key wpa).map some, joinWords nwid key wpa, ?_, rfl, ?_, hdrop,
    hdecodes env.exits, ?_, ?_⟩
  · rw [accessArgvs, hwpa, hnwid, ← wpaArgv_eq hkey]
    rfl
  · rw [List.length_map]
    exact joinWords_length nwid key wpa
  · split
    · next hlong => rw [ifconfigGate_long _ hlong]
    · next hshort =>
        exact (ifconfigGate_of_decodes hdrop hdecodes env (Nat.lt_of_not_le hshort) hist).1
  · split
    · next hlong => rw [ifconfigGate_long _ hlong]
    · next hshort =>
        exact (ifconfigGate_of_decodes hdrop hdecodes env (Nat.lt_of_not_le hshort) hist).2

/-- A section with all options, whose values are words with a meaning of their own. -/
def trickyWpa : WpaCfg :=
  ⟨some (.lit "inet6"), some (.lit "nwid"), some (.lit "wpakey"), some (.lit "down")⟩

def trickyWireless : Wireless StaticCfg WpaCfg :=
  { (Wireless.zero : Wireless StaticCfg WpaCfg) with
    nwid := some (.lit "inet"), wpa := some trickyWpa }

theorem wpa_vector_decodes_tricky :
    ∃ argv, accessArgvs trickyWireless = [cleanupArgv, argv] ∧ argv.length ≤ todoSize ∧
      ifconfigGate true .never argv (.lit "iwn0") [] =
        (joinCalls (.lit "inet") (.lit "inet6") trickyWpa, .running) := by
  obtain ⟨argv, words, haccess, -, hlength, -, -, -, hgate⟩ :=
    wpa_vector_decodes true .never (.lit "iwn0") [] trickyWireless rfl rfl rfl
  rw [if_neg (by decide)] at hgate
  exact ⟨argv, haccess, hlength, hgate⟩

end Ifconfigd.Connect
