import Ifconfigd.Gate.Vector
import Ifconfigd.Parse.Written

/-!
# `connect_wireless`

The parent sets up a wireless interface by calling `ifconfig_gate` with argument
vectors made from a section. The parser gives every section a WPA record, so the
vector with the WPA commands is always used, whether or not the section was written
with a `wpa` block.
-/

namespace Ifconfigd.Connect

open CLib Gate

/-- A command whose value the section may lack. -/
def optional (command : CStr) : Option CStr → List (Option CStr)
  | some value => [some command, some value]
  | none => []

/-- `todo` for the link layer address. -/
def lladdrArgv (lladdr : CStr) : List (Option CStr) := [some (.lit "lladdr"), some lladdr]

/-- `t`, which is passed to clean up the interface. The longer vector that is built for
it in `todo` is not. -/
def cleanupArgv : List (Option CStr) := [some (.lit "-bssid")]

/-- The options of a WPA record; the key is passed even if it is null. -/
def wpaOptions (wpa : WpaCfg) : List (Option CStr) :=
  optional (.lit "wpaakms") wpa.wpaakms ++ optional (.lit "wpaciphers") wpa.wpaciphers ++
    optional (.lit "wpagroupcipher") wpa.wpagroupcipher ++ [some (.lit "wpakey"), wpa.wpakey]

/-- `todo` for the access to the network. -/
def wpaArgv (nwid : Option CStr) (wpa : WpaCfg) : List (Option CStr) :=
  some (.lit "nwid") :: nwid :: some (.lit "wpa") :: wpaOptions wpa

/-- `todo` for a static configuration. `bzero` clears 11 bytes of it after the first
two pointers were stored: the first is null, and the second, cut, is not read. -/
def staticArgv (static : StaticCfg) : List (Option CStr) :=
  none :: static.inet :: optional (.lit "netmask") static.netmask

/-- The interface name a section passes on; an unterminated field is read on past its
end. -/
def iface (w : Wireless StaticCfg WpaCfg) (past : List Byte) : CStr :=
  CStr.read (w.interface ++ past)

/-- The vectors passed before the addresses are set. -/
def accessArgvs (w : Wireless StaticCfg WpaCfg) : List (List (Option CStr)) :=
  w.lladdr.toList.map lladdrArgv ++
    w.wpa.toList.flatMap fun wpa => [cleanupArgv, wpaArgv w.nwid wpa]

/-- `connect_wireless`: the handler calls, and whether the process goes on. `execl`
says whether `dhclient` can be executed. -/
def connectWireless (inet6 : Bool) (env : Env) (execl : Bool) (past : List Byte)
    (w : Wireless StaticCfg WpaCfg) : List Call × Process :=
  match ifconfigGates inet6 env (iface w past) (accessArgvs w) [] with
  | (calls, .running) =>
      if w.isdhcp = 1 then (calls, if execl then .replaced else .running)
      else
        match w.staticopts with
        | some static => ifconfigGate inet6 env (staticArgv static) (iface w past) calls
        | none => (calls, .running)
  | stopped => stopped

/-! ## Single calls of the gate -/

section Gate

variable {inet6 : Bool} {env : Env} {name : CStr} {hist : List Call}

/-- A handler call and the work after the loop let the process go on. -/
def Passes (env : Env) (calls : List Call) : Prop :=
  env.exits calls = false ∧ env.fails calls = false

instance (env : Env) (calls : List Call) : Decidable (Passes env calls) :=
  inferInstanceAs (Decidable (_ ∧ _))

theorem ifconfigGate_long (argv : List (Option CStr)) (h : ifnamsiz ≤ name.length) :
    ifconfigGate inet6 env argv name hist = (hist, .errx) := by
  rw [ifconfigGate, if_pos h]

theorem lookup_access (inet6 : Bool) :
    lookup (gateCmds inet6) (.lit "lladdr") = some ⟨.lit "lladdr", .nextarg, none, .setiflladdr⟩ ∧
      lookup (gateCmds inet6) (.lit "-bssid") =
        some ⟨.lit "-bssid", .value (-1), none, .setifbssid⟩ ∧
      lookup (gateCmds inet6) (.lit "nwid") = some ⟨.lit "nwid", .nextarg, none, .setifnwid⟩ ∧
      lookup (gateCmds inet6) (.lit "wpa") = some ⟨.lit "wpa", .value 1, none, .setifwpa⟩ := by
  cases inet6 <;> decide +kernel

theorem dropAf_access (inet6 : Bool) (rest : List CStr) :
    ∀ word ∈ [CStr.lit "lladdr", .lit "-bssid", .lit "nwid"],
      dropAf inet6 (word :: rest) = word :: rest := by
  have hnone : ∀ word ∈ [CStr.lit "lladdr", .lit "-bssid", .lit "nwid"],
      word ∉ afNames inet6 := by
    cases inet6 <;> decide +kernel
  intro word hword
  rw [dropAf, if_neg (hnone word hword)]

/-- A vector whose loop is one handler call. -/
theorem ifconfigGate_of_loop {argv : List (Option CStr)} {c : Call} (hname : name.length < ifnamsiz)
    (hwords : (wordsOf argv).length = argv.length)
    (hloop : gateLoop (gateCmds inet6) env.exits (dropAf inet6 (wordsOf argv)) hist =
      perform env.exits hist c (gateLoop (gateCmds inet6) env.exits [])) :
    ifconfigGate inet6 env argv name hist =
      (hist ++ [c], if Passes env (hist ++ [c]) then .running else .exited) := by
  rw [ifconfigGate, if_neg (Nat.not_le.2 hname), hloop, perform, hwords]
  cases hexits : env.exits (hist ++ [c]) with
  | true => simp [Passes, hexits]
  | false => cases hfails : env.fails (hist ++ [c]) <;> simp [gateLoop, Passes, hexits, hfails]

theorem ifconfigGate_lladdr (lladdr : CStr) (hname : name.length < ifnamsiz) :
    ifconfigGate inet6 env (lladdrArgv lladdr) name hist =
      (hist ++ [.func .setiflladdr (some lladdr) 0],
        if Passes env (hist ++ [.func .setiflladdr (some lladdr) 0]) then .running
        else .exited) := by
  refine ifconfigGate_of_loop hname rfl ?_
  change gateLoop _ _ (dropAf inet6 [.lit "lladdr", lladdr]) hist = _
  rw [dropAf_access inet6 _ _ (by simp), gateLoop_nextarg _ _ (lookup_access inet6).1 rfl]

theorem ifconfigGate_cleanup (hname : name.length < ifnamsiz) :
    ifconfigGate inet6 env cleanupArgv name hist =
      (hist ++ [.func .setifbssid (some (.lit "-bssid")) (-1)],
        if Passes env (hist ++ [.func .setifbssid (some (.lit "-bssid")) (-1)]) then .running
        else .exited) := by
  refine ifconfigGate_of_loop hname rfl ?_
  change gateLoop _ _ (dropAf inet6 [.lit "-bssid"]) hist = _
  rw [dropAf_access inet6 _ _ (by simp), gateLoop_value _ (lookup_access inet6).2.1 rfl]

theorem ifconfigGates_one {argv : List (Option CStr)} {c : Call}
    (hgate : ifconfigGate inet6 env argv name hist =
      (hist ++ [c], if Passes env (hist ++ [c]) then .running else .exited))
    (rest : List (List (Option CStr))) :
    ifconfigGates inet6 env name (argv :: rest) hist =
      if Passes env (hist ++ [c]) then ifconfigGates inet6 env name rest (hist ++ [c])
      else (hist ++ [c], .exited) := by
  rw [ifconfigGates, hgate]
  split_ifs <;> rfl

/-- The network id is set before the first WPA command. -/
theorem gateLoop_wpa (nwid : CStr) (wpa : WpaCfg) :
    gateLoop (gateCmds inet6) env.exits (dropAf inet6 (wordsOf (wpaArgv (some nwid) wpa))) hist =
      perform env.exits hist (.func .setifnwid (some nwid) 0) fun hist =>
        perform env.exits hist (.func .setifwpa (some (.lit "wpa")) 1)
          (gateLoop (gateCmds inet6) env.exits (wordsOf (wpaOptions wpa))) := by
  simp only [wpaArgv, wordsOf]
  rw [dropAf_access inet6 _ _ (by simp), gateLoop_nextarg _ _ (lookup_access inet6).2.2.1 rfl]
  refine congrArg (perform _ _ _) (funext fun hist => ?_)
  exact gateLoop_value _ (lookup_access inet6).2.2.2 rfl

theorem ifconfigGate_exited {argv : List (Option CStr)} {calls : List Call}
    (hname : name.length < ifnamsiz)
    (hloop : gateLoop (gateCmds inet6) env.exits (dropAf inet6 (wordsOf argv)) hist =
      ⟨calls, .exited⟩) :
    ifconfigGate inet6 env argv name hist = (calls, .exited) := by
  rw [ifconfigGate, if_neg (Nat.not_le.2 hname), hloop]

theorem ifconfigGate_calls (argv : List (Option CStr)) (hname : name.length < ifnamsiz) :
    (ifconfigGate inet6 env argv name hist).1 =
      (gateLoop (gateCmds inet6) env.exits (dropAf inet6 (wordsOf argv)) hist).calls := by
  rw [ifconfigGate, if_neg (Nat.not_le.2 hname)]
  dsimp only
  split
  · split
    · rfl
    · split <;> rfl
  · rfl
  · rfl

end Gate

/-! ## The WPA commands of a section -/

/-- The handlers of `wpa`, `wpaakms`, `wpaciphers`, `wpagroupcipher` and `wpakey`. -/
def wpaHandlers : List Handler :=
  [.setifwpa, .setifwpaakms, .setifwpaciphers, .setifwpagroupcipher, .setifwpakey]

def IssuesWpa (calls : List Call) : Prop := ∃ c ∈ calls, c.handler ∈ wpaHandlers

/-- The calls up to the cleanup. -/
def cleanupCalls (w : Wireless StaticCfg WpaCfg) : List Call :=
  (w.lladdr.toList.map fun lladdr => .func .setiflladdr (some lladdr) 0) ++
    [.func .setifbssid (some (.lit "-bssid")) (-1)]

/-- The handlers called before the first WPA command return. -/
structure Arrives (env : Env) (w : Wireless StaticCfg WpaCfg) (nwid : CStr) : Prop where
  lladdr : ∀ lladdr, w.lladdr = some lladdr → Passes env [.func .setiflladdr (some lladdr) 0]
  cleanup : Passes env (cleanupCalls w)
  nwid : env.exits (cleanupCalls w ++ [.func .setifnwid (some nwid) 0]) = false

section Section

variable {inet6 : Bool} {env : Env} {name : CStr} {w : Wireless StaticCfg WpaCfg} {nwid : CStr}
  {wpa : WpaCfg}

theorem not_issuesWpa_append {calls : List Call} (h : ¬IssuesWpa calls) {c : Call}
    (hc : c.handler ∉ wpaHandlers) : ¬IssuesWpa (calls ++ [c]) := by
  rintro ⟨d, hd, hwpa⟩
  rcases List.mem_append.1 hd with hd | hd
  · exact h ⟨d, hd, hwpa⟩
  · cases List.mem_singleton.1 hd
    exact hc hwpa

/-- The vector for the access to the network, if the network id cannot be set. -/
theorem ifconfigGate_wpa_exited (wpa : WpaCfg) (hname : name.length < ifnamsiz)
    {hist : List Call} (hexits : env.exits (hist ++ [.func .setifnwid (some nwid) 0]) = true) :
    ifconfigGate inet6 env (wpaArgv (some nwid) wpa) name hist =
      (hist ++ [.func .setifnwid (some nwid) 0], .exited) := by
  refine ifconfigGate_exited hname ?_
  rw [gateLoop_wpa, perform, if_pos hexits]

/-- If it can, a WPA command follows. -/
theorem ifconfigGate_wpa_issues (wpa : WpaCfg) (hname : name.length < ifnamsiz)
    {hist : List Call} (hexits : env.exits (hist ++ [.func .setifnwid (some nwid) 0]) = false) :
    IssuesWpa (ifconfigGate inet6 env (wpaArgv (some nwid) wpa) name hist).1 := by
  refine ⟨.func .setifwpa (some (.lit "wpa")) 1, ?_, by decide⟩
  rw [ifconfigGate_calls _ hname, gateLoop_wpa, perform, hexits, if_neg Bool.false_ne_true,
    perform]
  split
  · simp
  · obtain ⟨more, hmore⟩ := gateLoop_hist (gateCmds inet6) env.exits (wordsOf (wpaOptions wpa))
      (hist ++ [.func .setifnwid (some nwid) 0] ++ [.func .setifwpa (some (.lit "wpa")) 1])
    rw [hmore]
    simp

theorem ifconfigGates_last (argv : List (Option CStr)) (hist : List Call) :
    ifconfigGates inet6 env name [argv] hist = ifconfigGate inet6 env argv name hist := by
  rw [ifconfigGates]
  split
  · next h => rw [h, ifconfigGates]
  · rfl

/-- The calls up to the cleanup are made unless one of them ends the process. -/
theorem ifconfigGates_cleanup (hname : name.length < ifnamsiz)
    (hwpa : w.wpa = some wpa) :
    ifconfigGates inet6 env name (accessArgvs w) [] =
      match w.lladdr with
      | some lladdr =>
          if Passes env [.func .setiflladdr (some lladdr) 0] then
            if Passes env (cleanupCalls w) then
              ifconfigGate inet6 env (wpaArgv w.nwid wpa) name (cleanupCalls w)
            else (cleanupCalls w, .exited)
          else ([.func .setiflladdr (some lladdr) 0], .exited)
      | none =>
          if Passes env (cleanupCalls w) then
            ifconfigGate inet6 env (wpaArgv w.nwid wpa) name (cleanupCalls w)
          else (cleanupCalls w, .exited) := by
  cases hlladdr : w.lladdr with
  | some lladdr =>
      simp only [accessArgvs, hlladdr, hwpa, cleanupCalls, Option.toList_some, List.map_cons,
        List.map_nil, List.flatMap_cons, List.flatMap_nil, List.append_nil, List.cons_append,
        List.nil_append]
      rw [ifconfigGates_one (ifconfigGate_lladdr lladdr hname),
        ifconfigGates_one (ifconfigGate_cleanup hname), ifconfigGates_last]
      rfl
  | none =>
      simp only [accessArgvs, hlladdr, hwpa, cleanupCalls, Option.toList_some, Option.toList_none,
        List.map_nil, List.flatMap_cons, List.flatMap_nil, List.append_nil, List.nil_append]
      rw [ifconfigGates_one (ifconfigGate_cleanup hname), ifconfigGates_last]
      rfl

/-- Whether the first WPA command is reached. -/
theorem ifconfigGates_access (inet6 : Bool) (hname : name.length < ifnamsiz) (hwpa : w.wpa = some wpa)
    (hnwid : w.nwid = some nwid) :
    (Arrives env w nwid ∧ IssuesWpa (ifconfigGates inet6 env name (accessArgvs w) []).1) ∨
      ¬Arrives env w nwid ∧ ¬IssuesWpa (ifconfigGates inet6 env name (accessArgvs w) []).1 ∧
        (ifconfigGates inet6 env name (accessArgvs w) []).2 = .exited := by
  have hclean : ¬IssuesWpa (cleanupCalls w) := by
    cases hlladdr : w.lladdr <;> simp [IssuesWpa, cleanupCalls, hlladdr, Call.handler, wpaHandlers]
  have hwpaGate : Passes env (cleanupCalls w) →
      (∀ lladdr, w.lladdr = some lladdr → Passes env [.func .setiflladdr (some lladdr) 0]) →
      (Arrives env w nwid ∧
          IssuesWpa (ifconfigGate inet6 env (wpaArgv w.nwid wpa) name (cleanupCalls w)).1) ∨
        ¬Arrives env w nwid ∧
          ¬IssuesWpa (ifconfigGate inet6 env (wpaArgv w.nwid wpa) name (cleanupCalls w)).1 ∧
          (ifconfigGate inet6 env (wpaArgv w.nwid wpa) name (cleanupCalls w)).2 = .exited := by
    intro hpass hlladdr
    rw [hnwid]
    cases hexits : env.exits (cleanupCalls w ++ [.func .setifnwid (some nwid) 0]) with
    | true =>
        rw [ifconfigGate_wpa_exited wpa hname hexits]
        refine .inr ⟨?_, not_issuesWpa_append hclean (by simp [Call.handler, wpaHandlers]), rfl⟩
        intro h
        cases h.nwid.symm.trans hexits
    | false => exact .inl ⟨⟨hlladdr, hpass, hexits⟩, ifconfigGate_wpa_issues wpa hname hexits⟩
  rw [ifconfigGates_cleanup hname hwpa]
  cases hlladdr : w.lladdr with
  | some lladdr =>
      dsimp only
      split
      · next hfirst =>
          split
          · next hpass =>
              refine hwpaGate hpass fun a ha => ?_
              rw [hlladdr] at ha
              cases ha
              exact hfirst
          · next hpass => exact .inr ⟨fun h => hpass h.cleanup, hclean, rfl⟩
      · next hfirst =>
          refine .inr ⟨fun h => hfirst (h.lladdr _ hlladdr), ?_, rfl⟩
          simp [IssuesWpa, Call.handler, wpaHandlers]
  | none =>
      dsimp only
      split
      · next hpass =>
          refine hwpaGate hpass fun a ha => ?_
          rw [hlladdr] at ha
          cases ha
      · next hpass => exact .inr ⟨fun h => hpass h.cleanup, hclean, rfl⟩

variable {execl : Bool} {past : List Byte}

theorem connectWireless_calls (inet6 : Bool) (env : Env) (execl : Bool) (past : List Byte)
    (w : Wireless StaticCfg WpaCfg) :
    ∃ more, (connectWireless inet6 env execl past w).1 =
      (ifconfigGates inet6 env (iface w past) (accessArgvs w) []).1 ++ more := by
  rw [connectWireless]
  split
  · next calls h =>
      rw [h]
      split
      · exact ⟨[], (List.append_nil _).symm⟩
      · split
        · exact ifconfigGate_hist inet6 env _ _ calls
        · exact ⟨[], (List.append_nil _).symm⟩
  · exact ⟨[], (List.append_nil _).symm⟩

theorem connectWireless_of_stopped {calls : List Call} {process : Process}
    (h : ifconfigGates inet6 env (iface w past) (accessArgvs w) [] = (calls, process))
    (hprocess : process ≠ .running) :
    connectWireless inet6 env execl past w = (calls, process) := by
  rw [connectWireless, h]
  cases process <;> first | exact absurd rfl hprocess | rfl

/-- An interface name that is too long ends the process at the first vector. -/
theorem connectWireless_long (hname : ifnamsiz ≤ (iface w past).length) (hwpa : w.wpa = some wpa) :
    connectWireless inet6 env execl past w = ([], .errx) := by
  refine connectWireless_of_stopped ?_ (by decide)
  cases hlladdr : w.lladdr <;>
    simp [accessArgvs, hlladdr, hwpa, ifconfigGates, ifconfigGate_long _ hname]

theorem connectWireless_short (inet6 : Bool) (env : Env) (execl : Bool)
    (hname : (iface w past).length < ifnamsiz) (hwpa : w.wpa = some wpa)
    (hnwid : w.nwid = some nwid) :
    (Arrives env w nwid ∧ IssuesWpa (connectWireless inet6 env execl past w).1) ∨
      ¬Arrives env w nwid ∧ ¬IssuesWpa (connectWireless inet6 env execl past w).1 ∧
        (connectWireless inet6 env execl past w).2 = .exited := by
  rcases ifconfigGates_access inet6 hname hwpa hnwid with
    ⟨harrives, c, hc, hissues⟩ | ⟨harrives, hissues, hexited⟩
  · obtain ⟨more, hmore⟩ := connectWireless_calls inet6 env execl past w
    refine .inl ⟨harrives, c, ?_, hissues⟩
    rw [hmore]
    exact List.mem_append_left _ hc
  · have hstopped : connectWireless inet6 env execl past w =
        ((ifconfigGates inet6 env (iface w past) (accessArgvs w) []).1, .exited) :=
      connectWireless_of_stopped (Prod.ext rfl hexited) (by decide)
    rw [hstopped]
    exact .inr ⟨harrives, hissues, rfl⟩

theorem lookup_options (inet6 : Bool) :
    lookup (gateCmds inet6) (.lit "wpaakms") =
        some ⟨.lit "wpaakms", .nextarg, none, .setifwpaakms⟩ ∧
      lookup (gateCmds inet6) (.lit "wpaciphers") =
        some ⟨.lit "wpaciphers", .nextarg, none, .setifwpaciphers⟩ ∧
      lookup (gateCmds inet6) (.lit "wpagroupcipher") =
        some ⟨.lit "wpagroupcipher", .nextarg, none, .setifwpagroupcipher⟩ ∧
      lookup (gateCmds inet6) (.lit "wpakey") =
        some ⟨.lit "wpakey", .nextarg, none, .setifwpakey⟩ := by
  cases inet6 <;> decide +kernel

theorem wordsOf_optional (command : CStr) (value : Option CStr) (rest : List (Option CStr)) :
    wordsOf (optional command value ++ rest) =
      (value.toList.flatMap fun v => [command, v]) ++ wordsOf rest := by
  cases value <;> rfl

theorem gateLoop_optional {exits : Exits} {word : CStr} {row : Cmd}
    (h : lookup (gateCmds inet6) word = some row) (hrow : row.parameter = .nextarg)
    (value : Option CStr) (rest : List CStr) (hist : List Call) :
    gateLoop (gateCmds inet6) exits ((value.toList.flatMap fun v => [word, v]) ++ rest) hist =
      performAll exits hist (value.toList.map fun v => .func row.func (some v) 0)
        (gateLoop (gateCmds inet6) exits rest) := by
  cases value with
  | none => rfl
  | some v => exact gateLoop_nextarg v rest h hrow

/-- The calls for the options of a WPA record. -/
def optionCalls (wpa : WpaCfg) : List Call :=
  (wpa.wpaakms.toList.map fun v => .func .setifwpaakms (some v) 0) ++
    ((wpa.wpaciphers.toList.map fun v => .func .setifwpaciphers (some v) 0) ++
    ((wpa.wpagroupcipher.toList.map fun v => .func .setifwpagroupcipher (some v) 0) ++
    wpa.wpakey.toList.map fun v => .func .setifwpakey (some v) 0))

/-- With a null pointer for the key the loop stops at it. -/
theorem gateLoop_options (exits : Exits) (wpa : WpaCfg) (hist : List Call) :
    gateLoop (gateCmds inet6) exits (wordsOf (wpaOptions wpa)) hist =
      performAll exits hist (optionCalls wpa) fun hist =>
        ⟨hist, if wpa.wpakey = none then .requiresArgument (.lit "wpakey") else .finished⟩ := by
  obtain ⟨hakms, hciphers, hgroup, hkey⟩ := lookup_options inet6
  simp only [wpaOptions, optionCalls, List.append_assoc, wordsOf_optional, performAll_append]
  rw [gateLoop_optional hakms rfl]
  refine congrArg _ (funext fun hist => ?_)
  rw [gateLoop_optional hciphers rfl]
  refine congrArg _ (funext fun hist => ?_)
  rw [gateLoop_optional hgroup rfl]
  refine congrArg _ (funext fun hist => ?_)
  cases wpa.wpakey with
  | none =>
      simp only [wordsOf]
      rw [gateLoop_command _ hkey]
      rfl
  | some key =>
      simp only [wordsOf]
      rw [gateLoop_nextarg _ _ hkey rfl]
      refine congrArg _ (funext fun hist => ?_)
      simp [gateLoop, performAll]

theorem arrives_never (w : Wireless StaticCfg WpaCfg) (nwid : CStr) : Arrives .never w nwid :=
  ⟨fun _ _ => ⟨rfl, rfl⟩, ⟨rfl, rfl⟩, rfl⟩

/-- A section without a key: WPA is enabled, and the process ends. -/
theorem connectWireless_of_no_key (hname : (iface w past).length < ifnamsiz)
    (hwpa : w.wpa = some wpa) (hnwid : w.nwid = some nwid) (hkey : wpa.wpakey = none) :
    connectWireless inet6 .never execl past w =
      (cleanupCalls w ++ [.func .setifnwid (some nwid) 0] ++
        [.func .setifwpa (some (.lit "wpa")) 1] ++ optionCalls wpa, .errx) := by
  have hgate : ifconfigGate inet6 .never (wpaArgv (some nwid) wpa) (iface w past) (cleanupCalls w) =
      (cleanupCalls w ++ [.func .setifnwid (some nwid) 0] ++
        [.func .setifwpa (some (.lit "wpa")) 1] ++ optionCalls wpa, .errx) := by
    rw [ifconfigGate, if_neg (Nat.not_le.2 hname), gateLoop_wpa]
    simp only [Env.never, perform_never, gateLoop_options, performAll_never, hkey, if_pos]
  refine connectWireless_of_stopped ?_ (by decide)
  rw [ifconfigGates_cleanup hname hwpa, hnwid, hgate]
  cases w.lladdr <;> rfl

end Section

/-! ## Sections from a configuration file -/

/-- WPA is used exactly where it is configured: WPA commands are issued if and only if
there is a key, and without a `wpa` block the process is not ended by `errx` in
`ifconfig_gate`. -/
def Conforms (key block : Prop) (run : List Call × Process) : Prop :=
  (IssuesWpa run.1 ↔ key) ∧ (¬block → ¬IssuesWpa run.1 ∧ run.2 ≠ .errx)

open Parse Yacc

section Parsed

variable {fs : FileSystem} {fuel : Nat} {filename : CStr} {g₀ g : Parse.Globals} {conf : IfconfigdConf}
  {file : File} {p : Nat}

/-- A section with a network id is one of those allocated, and has its WPA record. -/
theorem wpa_of_nwid (h : WpaPaired g.yy) {nwid : CStr}
    (hnwid : (g.yy.heap.wireless p).nwid = some nwid) :
    (g.yy.heap.wireless p).wpa = some (g.yy.heap.wpa p) := by
  simp only [Heap.wireless] at hnwid ⊢
  rw [List.getD_eq_getElem?_getD] at hnwid ⊢
  cases hget : g.yy.heap.wlans[p]? with
  | none =>
      rw [hget] at hnwid
      cases hnwid
  | some w =>
      rw [Option.getD_some, h.own p w hget, Option.map_some]

/-- The sections of an accepted configuration that conform: with an interface name that
fits, those with a key whose WPA commands are reached, and those without one where an
earlier handler ends the process; with a longer name, those with a block but no key. -/
theorem connectWireless_conforms_iff (hg₀ : Parsed g₀)
    (hparse : parseConfig fs fuel filename g₀ = some (.returned (some conf) g))
    {nwid : CStr} (hnwid : (g.yy.heap.wireless p).nwid = some nwid)
    (inet6 : Bool) (env : Env) (execl : Bool) (past : List Byte) :
    Conforms (ReadIn fs filename g₀ 71 p) (ReadIn fs filename g₀ 63 p)
        (connectWireless inet6 env execl past (g.yy.heap.wireless p)) ↔
      if (iface (g.yy.heap.wireless p) past).length < ifnamsiz then
        (Arrives env (g.yy.heap.wireless p) nwid ↔ ReadIn fs filename g₀ 71 p)
      else ReadIn fs filename g₀ 63 p ∧ ¬ReadIn fs filename g₀ 71 p := by
  have hblock : ReadIn fs filename g₀ 71 p → ReadIn fs filename g₀ 63 p := readIn_block_of_key
  have hwpa := wpa_of_nwid (Parsed.call hg₀ hparse).paired hnwid
  split
  · next hname =>
      rcases connectWireless_short inet6 env execl hname hwpa hnwid with
        ⟨harrives, hissues⟩ | ⟨harrives, hissues, hexited⟩
      · simp only [Conforms, hissues, harrives, true_iff, not_true_eq_false, false_and]
        tauto
      · simp only [Conforms, hissues, harrives, hexited, false_iff]
        tauto
  · next hname =>
      rw [connectWireless_long (Nat.not_lt.1 hname) hwpa]
      simp only [Conforms, IssuesWpa, List.not_mem_nil, false_and, exists_false, false_iff]
      tauto

/-- A section in which no key was read: WPA is enabled, and the process ends. -/
theorem connectWireless_of_not_readIn (hg₀ : Parsed g₀)
    (hparse : parseConfig fs fuel filename g₀ = some (.returned (some conf) g))
    (hp : g₀.yy.heap.wlans.length ≤ p) (hkey : ¬ReadIn fs filename g₀ 71 p) {nwid : CStr}
    (hnwid : (g.yy.heap.wireless p).nwid = some nwid) (inet6 : Bool) (execl : Bool)
    (past : List Byte) (hname : (iface (g.yy.heap.wireless p) past).length < ifnamsiz) :
    IssuesWpa (connectWireless inet6 .never execl past (g.yy.heap.wireless p)).1 ∧
      (connectWireless inet6 .never execl past (g.yy.heap.wireless p)).2 = .errx := by
  have hwpa := wpa_of_nwid (Parsed.call hg₀ hparse).paired hnwid
  have hnone : (g.yy.heap.wpa p).wpakey = none := by
    by_contra hsome
    refine hkey ((hasKey_iff_readIn hg₀ hparse hp).1 ?_)
    rw [Heap.wpa, List.getD_eq_getElem?_getD] at hsome
    cases hget : g.yy.heap.wpas[p]? with
    | none =>
        rw [hget] at hsome
        exact absurd rfl hsome
    | some w =>
        rw [hget] at hsome
        exact ⟨w, hget, hsome⟩
  rw [connectWireless_of_no_key hname hwpa hnwid hnone]
  refine ⟨⟨.func .setifwpa (some (.lit "wpa")) 1, ?_, by decide⟩, rfl⟩
  simp

end Parsed

/-- A network with one wireless section, with or without a `wpa` block. -/
def oneWireless (block : String) : FileSystem where
  stdin := asciiBytes "network n \x7b\nwireless w \x7b\nnwid x\n" ++ asciiBytes block ++
    asciiBytes "\x7d\n\x7d\n"
  inode _ := none
  uid := 0
  openMax := none

/-- The name that stands for the standard input. -/
def standardInput : CStr := .lit "-"

/-- The configuration with a key: WPA is used as configured. -/
theorem connectWireless_conforms_iff_key :
    ∃ conf g, parseConfig (oneWireless "wpa \x7b\nwpakey k\n\x7d\n") 200 standardInput
        (.initial []) = some (.returned (some conf) g) ∧
      Conforms (ReadIn (oneWireless "wpa \x7b\nwpakey k\n\x7d\n") standardInput (.initial []) 71 0)
        (ReadIn (oneWireless "wpa \x7b\nwpakey k\n\x7d\n") standardInput (.initial []) 63 0)
        (connectWireless false .never false [] (g.yy.heap.wireless 0)) := by
  have hcheck : acceptedWith (fun _ g => (g.yy.heap.wireless 0).nwid = some (.lit "x") ∧
        (iface (g.yy.heap.wireless 0) []).length < ifnamsiz ∧
        g.yy.heap.wpas = [⟨some (.lit "k"), none, none, none⟩])
      (parseConfig (oneWireless "wpa \x7b\nwpakey k\n\x7d\n") 200 standardInput
        (.initial [])) = true := by
    decide +kernel
  obtain ⟨conf, g, hparse, htest⟩ := exists_of_acceptedWith hcheck
  obtain ⟨hnwid, hname, hwpas⟩ := of_decide_eq_true htest
  refine ⟨conf, g, hparse, ?_⟩
  have hkey : HasKey g.yy 0 := ⟨_, by rw [hwpas]; rfl, by decide⟩
  have hread := (hasKey_iff_readIn (.initial []) hparse (Nat.zero_le _)).1 hkey
  rw [connectWireless_conforms_iff (.initial []) hparse hnwid, if_pos hname]
  exact iff_of_true (arrives_never _ _) hread

/-- Without a `wpa` block no key is read, but WPA is enabled and the process ends. -/
theorem open_network_ends_process :
    ∃ conf g, parseConfig (oneWireless "") 200 standardInput (.initial []) =
        some (.returned (some conf) g) ∧
      (g.yy.heap.wireless 0).nwid = some (.lit "x") ∧
      ¬ReadIn (oneWireless "") standardInput (.initial []) 71 0 ∧
      IssuesWpa (connectWireless false .never false [] (g.yy.heap.wireless 0)).1 ∧
      (connectWireless false .never false [] (g.yy.heap.wireless 0)).2 = .errx := by
  have hcheck : acceptedWith (fun _ g => (g.yy.heap.wireless 0).nwid = some (.lit "x") ∧
        (iface (g.yy.heap.wireless 0) []).length < ifnamsiz ∧
        g.yy.heap.wpas = [⟨none, none, none, none⟩])
      (parseConfig (oneWireless "") 200 standardInput (.initial [])) = true := by
    decide +kernel
  obtain ⟨conf, g, hparse, htest⟩ := exists_of_acceptedWith hcheck
  obtain ⟨hnwid, hname, hwpas⟩ := of_decide_eq_true htest
  have hread : ¬ReadIn (oneWireless "") standardInput (.initial []) 71 0 := by
    rw [← hasKey_iff_readIn (.initial []) hparse (Nat.zero_le _)]
    rintro ⟨w, hw, hkey⟩
    rw [hwpas] at hw
    cases hw
    exact hkey rfl
  exact ⟨conf, g, hparse, hnwid, hread, connectWireless_of_not_readIn (.initial []) hparse
    (Nat.zero_le _) hread hnwid false false [] hname⟩

end Ifconfigd.Connect
