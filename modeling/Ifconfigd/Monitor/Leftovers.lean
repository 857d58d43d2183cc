import Ifconfigd.Monitor.Connect

/-!
# What `connect_wireless` leaves of the previous network

The 802.11 settings of an interface are changed by the handlers of the WPA commands,
of `nwid`, `bssid` and `chan`. Each handler changes the setting it names, and `wpakey`
also enables WPA. `connect_wireless` calls some of them, so what the interface ends up
with depends on its settings before the call.

The ioctls are assumed to succeed; a handler ends the process only if it does not
understand its argument.
-/

namespace Ifconfigd.Connect

open CLib Gate

/-! ## The settings and their texts -/

/-- The 802.11 settings of an interface. -/
inductive Setting
  | nwid | bssid | channel | enabled | akms | ciphers | groupcipher | psk
  deriving DecidableEq

/-- What a setting is set to; the network id and the BSSID are byte strings, the key
may be missing, and the others are numbers of the ioctls. -/
abbrev Setting.Value : Setting → Type
  | .nwid | .bssid => List Byte
  | .channel | .akms | .ciphers | .groupcipher => Nat
  | .enabled => Bool
  | .psk => Option (List Byte)

/-- The settings of one interface. -/
abbrev Wifi := (s : Setting) → s.Value

/-- Functions of the C library and the password hash. -/
structure Libc where
  etherAton : CStr → Option (List Byte)
  strtonum : CStr → Nat → Nat → Option Nat
  pbkdf2 : CStr → List Byte → Option (List Byte)

def tolower (b : Byte) : Byte := if 65 ≤ b ∧ b ≤ 90 then b + 32 else b

/-- The value of a hexadecimal digit. -/
def tohex (b : Byte) : Option Byte :=
  if 48 ≤ b ∧ b ≤ 57 then some (b - 48)
  else if 97 ≤ tolower b ∧ tolower b ≤ 102 then some (tolower b - 87)
  else none

/-- Pairs of hexadecimal digits. -/
def hexBytes : List Byte → Option (List Byte)
  | [] => some []
  | [_] => none
  | high :: low :: rest => do
      let bytes ← hexBytes rest
      return (16 * (← tohex high) + (← tohex low)) :: bytes

/-- `get_string` without separators, into a buffer of `len` bytes, which it can overrun
by one. -/
def getString (len : Nat) (val : CStr) : Option (List Byte) :=
  let bytes :=
    match val.bytes with
    | zero :: x :: rest =>
        if zero = 48 ∧ tolower x = 120 then hexBytes rest else some val.bytes
    | bytes => some bytes
  bytes.filter fun bytes => bytes.length ≤ len + 1

/-- `strcasecmp` with a word in lower case. -/
def strcasecmp (str : List Byte) (word : String) : Bool := str.map tolower = asciiBytes word

/-- A comma separated list of words, as `strtok` reads it; each stands for a bit. -/
def bits (bit : List Byte → Option Nat) (val : CStr) : Option Nat :=
  ((val.bytes.splitOn 44).filter (· ≠ [])).foldlM (fun rval str => (bit str).map (rval ||| ·)) 0

/-- The words of `wpaakms`. -/
def akm (str : List Byte) : Option Nat :=
  if strcasecmp str "psk" then some 0x01
  else if strcasecmp str "802.1x" then some 0x02
  else none

/-- `ciphers`. -/
def ciphers : List (String × Nat) :=
  [("usegroup", 0x01), ("wep40", 0x02), ("tkip", 0x04), ("ccmp", 0x08), ("wep104", 0x10)]

/-- `getwpacipher`; `none` is `IEEE80211_WPA_CIPHER_NONE`. -/
def getwpacipher (name : List Byte) : Option Nat :=
  (ciphers.find? fun row => strcasecmp name row.1).map Prod.snd

/-- `IEEE80211_NWID_LEN`. -/
def nwidLen : Nat := 32

/-- `sizeof(psk.i_psk)`. -/
def pskSize : Nat := 32

/-- The key `setifwpakey` makes from its argument and the network id. -/
def pskOf (libc : Libc) (val : CStr) (nwid : List Byte) : Option (List Byte) :=
  if val.length = 2 + 2 * pskSize ∧ val.bytes.take 2 = asciiBytes "0x" then
    (getString pskSize val).filter fun psk => psk.length = pskSize
  else if val.length < 8 ∨ 63 < val.length then none
  else if nwid = [] then none
  else libc.pbkdf2 val nwid

/-- `IEEE80211_CHAN_ANY`. -/
def chanAny : Nat := 0xffff

/-- What a handler call does to the interface it is for; `none` is `errx`. The other
handlers do not change 802.11 settings. -/
def effect (libc : Libc) (st : Wifi) : Call → Option Wifi
  | .func .setifnwid (some val) d =>
      if d ≠ 0 then some (Function.update st .nwid [])
      else
        match getString nwidLen val with
        | some nwid => some (Function.update st .nwid nwid)
        | none => some st
  | .func .setifbssid (some val) d =>
      if d ≠ 0 then some (Function.update st .bssid (List.replicate 6 0))
      else
        match libc.etherAton val with
        | some bssid => some (Function.update st .bssid bssid)
        | none => some st
  | .func .setifwpa _ d => some (Function.update st .enabled (decide (d ≠ 0)))
  | .func .setifwpaakms (some val) _ =>
      (bits akm val).map fun rval => Function.update st .akms rval
  | .func .setifwpaciphers (some val) _ =>
      (bits getwpacipher val).map fun rval => Function.update st .ciphers rval
  | .func .setifwpagroupcipher (some val) _ =>
      (getwpacipher val.bytes).map fun cipher => Function.update st .groupcipher cipher
  | .func .setifwpakey (some val) d =>
      if d = -1 then some (Function.update (Function.update st .psk none) .enabled false)
      else
        (pskOf libc val (st .nwid)).map fun psk =>
          Function.update (Function.update st .psk (some psk)) .enabled true
  | .func .setifchan (some val) d =>
      if d ≠ 0 then some (Function.update st .channel chanAny)
      else
        match libc.strtonum val 1 256 with
        | some chan => some (Function.update st .channel chan)
        | none => some st
  | _ => some st

/-- The settings when the calls have been made, or one of them has ended the process. -/
def settle (libc : Libc) : List Call → Wifi → Wifi
  | [], st => st
  | c :: calls, st =>
      match effect libc st c with
      | some st => settle libc calls st
      | none => st

/-- The handler calls that end the process, from settings `st`. -/
def envFrom (libc : Libc) (st : Wifi) : Env where
  exits hist := (hist.foldlM (effect libc) st).isNone
  fails _ := false

/-- The interface whose settings the handlers change: `name` gets only as much of the
interface name as fits in the size of a pointer. -/
def target (name : CStr) : CStr := CStr.read (name.bytes.take 7)

/-- The settings of the interfaces after `connect_wireless`. -/
def afterConnect (libc : Libc) (inet6 execl : Bool) (past : List Byte)
    (w : Wireless StaticCfg WpaCfg) (k : CStr → Wifi) : CStr → Wifi :=
  let name := target (iface w past)
  let calls := (connectWireless inet6 (envFrom libc (k name)) execl past w).1
  Function.update k name (settle libc calls (k name))

/-! ## The calls -/

section Calls

variable {libc : Libc} {inet6 : Bool} {env : Env} {execl : Bool} {past : List Byte}
  {w : Wireless StaticCfg WpaCfg}

/-- The calls for the access to the network, as long as the handlers return. -/
def accessCalls (wpa : WpaCfg) : Option CStr → List Call
  | none => []
  | some nwid =>
      .func .setifnwid (some nwid) 0 :: .func .setifwpa (some (.lit "wpa")) 1 :: optionCalls wpa

/-- The calls `connect_wireless` makes as long as the handlers return. -/
def plan (w : Wireless StaticCfg WpaCfg) (past : List Byte) : List Call :=
  if ifnamsiz ≤ (iface w past).length then []
  else
    (w.lladdr.toList.map fun lladdr => .func .setiflladdr (some lladdr) 0) ++
      w.wpa.toList.flatMap fun wpa =>
        .func .setifbssid (some (.lit "-bssid")) (-1) :: accessCalls wpa w.nwid

theorem settle_append {hist : List Call} {st st' : Wifi}
    (h : hist.foldlM (effect libc) st = some st') (calls : List Call) :
    settle libc (hist ++ calls) st = settle libc calls st' := by
  induction hist generalizing st with
  | nil =>
      cases h
      rfl
  | cons c hist ih =>
      rw [List.foldlM_cons, Option.bind_eq_bind, Option.bind_eq_some_iff] at h
      obtain ⟨st₁, hst₁, h⟩ := h
      rw [List.cons_append, settle, hst₁]
      exact ih h

/-- Calls that stop at the first one that ends the process change as much as all of
them. -/
theorem settle_made {hist : List Call} {st st' : Wifi}
    (h : hist.foldlM (effect libc) st = some st') (calls : List Call) :
    settle libc (made (envFrom libc st).exits hist calls) st = settle libc calls st' := by
  induction calls generalizing hist st' with
  | nil =>
      rw [made, ← List.append_nil hist]
      exact settle_append h []
  | cons c calls ih =>
      have hnext : (hist ++ [c]).foldlM (effect libc) st = effect libc st' c := by
        rw [List.foldlM_append, h]
        simp
      rw [made, settle]
      cases heffect : effect libc st' c with
      | none =>
          rw [if_pos (by simp [envFrom, hnext, heffect])]
          rw [settle_append h, settle, heffect]
      | some st₁ =>
          rw [if_neg (by simp [envFrom, hnext, heffect])]
          exact ih (hnext.trans heffect)

theorem ifconfigGate_static (static : StaticCfg) (name : CStr) (hist : List Call) :
    (ifconfigGate inet6 env (staticArgv static) name hist).1 = hist := by
  rw [ifconfigGate]
  split
  · rfl
  · simp [staticArgv, wordsOf, dropAf, gateLoop]

theorem connectWireless_calls_eq :
    (connectWireless inet6 env execl past w).1 =
      (ifconfigGates inet6 env (iface w past) (accessArgvs w) []).1 := by
  rw [connectWireless]
  split
  · next calls h =>
      rw [h]
      split
      · rfl
      · split
        · exact ifconfigGate_static _ _ _
        · rfl
  · rfl

theorem ifconfigGate_wpa_calls {name : CStr} (hname : name.length < ifnamsiz)
    (nwid : Option CStr) (wpa : WpaCfg) (hist : List Call) :
    (ifconfigGate inet6 env (wpaArgv nwid wpa) name hist).1 =
      made env.exits hist (accessCalls wpa nwid) := by
  rw [ifconfigGate_calls _ hname]
  cases nwid with
  | none =>
      simp only [wpaArgv, wordsOf]
      rw [dropAf_access inet6 _ _ (by simp), gateLoop_command _ (lookup_access inet6).2.2.1]
      rfl
  | some nwid =>
      have hoptions : gateLoop (gateCmds inet6) env.exits (wordsOf (wpaOptions wpa)) = _ :=
        funext (gateLoop_options env.exits wpa)
      rw [gateLoop_wpa, hoptions]
      exact performAll_calls env.exits hist (accessCalls wpa (some nwid)) _

theorem ifconfigGates_long {name : CStr} (hname : ifnamsiz ≤ name.length)
    (argvs : List (List (Option CStr))) (hist : List Call) :
    (ifconfigGates inet6 env name argvs hist).1 = hist := by
  cases argvs with
  | nil => rfl
  | cons argv argvs => rw [ifconfigGates, ifconfigGate_long argv hname]

/-- A vector with one handler call, if nothing but a handler ends the process. -/
theorem ifconfigGates_one_calls {argv : List (Option CStr)} {name : CStr} {c : Call}
    {hist calls : List Call} {rest : List (List (Option CStr))}
    (hfails : ∀ calls, env.fails calls = false)
    (hgate : ifconfigGate inet6 env argv name hist =
      (hist ++ [c], if Passes env (hist ++ [c]) then .running else .exited))
    (hrest : (ifconfigGates inet6 env name rest (hist ++ [c])).1 =
      made env.exits (hist ++ [c]) calls) :
    (ifconfigGates inet6 env name (argv :: rest) hist).1 = made env.exits hist (c :: calls) := by
  rw [ifconfigGates_one hgate, made]
  cases hexits : env.exits (hist ++ [c]) with
  | true => rw [if_neg (by simp [Passes, hexits]), if_pos rfl]
  | false => rw [if_pos ⟨hexits, hfails _⟩, if_neg Bool.false_ne_true, hrest]

theorem connectWireless_calls_plan (hfails : ∀ calls, env.fails calls = false) :
    (connectWireless inet6 env execl past w).1 = made env.exits [] (plan w past) := by
  rw [connectWireless_calls_eq, plan]
  split
  · next hname => exact ifconfigGates_long hname _ _
  · next hname =>
      have hname := Nat.not_le.1 hname
      have hrest : ∀ hist, (ifconfigGates inet6 env (iface w past)
            (w.wpa.toList.flatMap fun wpa => [cleanupArgv, wpaArgv w.nwid wpa]) hist).1 =
          made env.exits hist (w.wpa.toList.flatMap fun wpa =>
            .func .setifbssid (some (.lit "-bssid")) (-1) :: accessCalls wpa w.nwid) := by
        intro hist
        cases w.wpa with
        | none => rfl
        | some wpa =>
            simp only [Option.toList_some, List.flatMap_cons, List.flatMap_nil, List.append_nil]
            refine ifconfigGates_one_calls hfails (ifconfigGate_cleanup hname) ?_
            rw [ifconfigGates_last]
            exact ifconfigGate_wpa_calls hname w.nwid wpa _
      cases hlladdr : w.lladdr with
      | none =>
          rw [accessArgvs, hlladdr]
          exact hrest []
      | some lladdr =>
          rw [accessArgvs, hlladdr]
          exact ifconfigGates_one_calls hfails (ifconfigGate_lladdr lladdr hname) (hrest _)

theorem settle_connectWireless (st : Wifi) :
    settle libc (connectWireless inet6 (envFrom libc st) execl past w).1 st =
      settle libc (plan w past) st := by
  rw [connectWireless_calls_plan fun _ => rfl]
  exact settle_made rfl _

end Calls

/-! ## What is set -/

/-- The network id that is set, if its text can be read. -/
def newNwid (w : Wireless StaticCfg WpaCfg) : Option (List Byte) := w.nwid.bind (getString nwidLen)

/-- A handler understands its argument, or is not called. -/
def accepts {α : Type} (parse : CStr → Option α) (value : Option CStr) : Bool :=
  value.all fun v => (parse v).isSome

/-- What is set with a network id in the section, where `nwid` is the one the interface
has when the key is set. After an argument that is not understood nothing more is set. -/
def accessWritten (libc : Libc) (wpa : WpaCfg) (id : CStr) (nwid : List Byte) :
    (s : Setting) → Option s.Value
  | .nwid => getString nwidLen id
  | .bssid | .channel => none
  | .enabled => some true
  | .akms => wpa.wpaakms.bind (bits akm)
  | .ciphers =>
      if accepts (bits akm) wpa.wpaakms then wpa.wpaciphers.bind (bits getwpacipher) else none
  | .groupcipher =>
      if accepts (bits akm) wpa.wpaakms ∧ accepts (bits getwpacipher) wpa.wpaciphers then
        wpa.wpagroupcipher.bind fun v => getwpacipher v.bytes
      else none
  | .psk =>
      if accepts (bits akm) wpa.wpaakms ∧ accepts (bits getwpacipher) wpa.wpaciphers ∧
          accepts (fun v => getwpacipher v.bytes) wpa.wpagroupcipher then
        (wpa.wpakey.bind fun key => pskOf libc key nwid).map some
      else none

/-- What a section sets. With an interface name of more than seven characters it is
another interface that is set. -/
def written (libc : Libc) (w : Wireless StaticCfg WpaCfg) (past : List Byte) (nwid : List Byte)
    (s : Setting) : Option s.Value :=
  if 7 < (iface w past).length then none
  else
    match w.wpa with
    | none => none
    | some wpa =>
        match s with
        | .bssid => some (List.replicate 6 0)
        | s =>
            match w.nwid with
            | none => none
            | some id => accessWritten libc wpa id nwid s

section Written

variable {libc : Libc}

/-- A setting with a new value, if there is one. -/
def Wifi.set (st : Wifi) (s : Setting) : Option s.Value → Wifi
  | some v => Function.update st s v
  | none => st

@[simp] theorem Wifi.set_self (st : Wifi) (s : Setting) (v : Option s.Value) :
    st.set s v s = v.getD (st s) := by
  cases v with
  | none => rfl
  | some v => exact Function.update_self s v st

theorem Wifi.set_of_ne (st : Wifi) {s t : Setting} (v : Option s.Value) (h : t ≠ s) :
    st.set s v t = st t := by
  cases v with
  | none => rfl
  | some v => exact Function.update_of_ne h v st

/-- An optional command that sets `s`. -/
theorem settle_optional {call : CStr → Call} (s : Setting) (parse : CStr → Option s.Value)
    (hcall : ∀ st v, effect libc st (call v) = (parse v).map fun x => Function.update st s x)
    (value : Option CStr) (calls : List Call) (st : Wifi) :
    settle libc (value.toList.map call ++ calls) st =
      if accepts parse value then settle libc calls (st.set s (value.bind parse)) else st := by
  cases value with
  | none => rfl
  | some v =>
      rw [Option.toList_some, List.map_singleton, List.singleton_append, settle, hcall]
      cases hparse : parse v <;> simp [accepts, hparse, Wifi.set]

theorem settle_key (key : Option CStr) (st : Wifi) :
    settle libc (key.toList.map fun v => .func .setifwpakey (some v) 0) st =
      match key.bind fun v => pskOf libc v (st .nwid) with
      | some psk => Function.update (Function.update st .psk (some psk)) .enabled true
      | none => st := by
  cases key with
  | none => rfl
  | some v =>
      have heffect : effect libc st (.func .setifwpakey (some v) 0) =
          (pskOf libc v (st .nwid)).map fun psk =>
            Function.update (Function.update st .psk (some psk)) .enabled true := rfl
      rw [Option.toList_some, List.map_singleton, settle, heffect]
      cases hpsk : pskOf libc v (st .nwid) <;> simp [hpsk, settle]

theorem bind_eq_none_of_not_accepts {α : Type} {parse : CStr → Option α} {value : Option CStr}
    (h : ¬accepts parse value = true) : value.bind parse = none := by
  cases value with
  | none => rfl
  | some v => simpa [accepts] using h

theorem settle_optionCalls (wpa : WpaCfg) (id : CStr) (st : Wifi) (s : Setting)
    (hs : s ≠ .nwid) (henabled : st .enabled = true) :
    settle libc (optionCalls wpa) st s =
      (accessWritten libc wpa id (st .nwid) s).getD (st s) := by
  rw [optionCalls, settle_optional .akms (bits akm) fun _ _ => rfl]
  by_cases hakms : accepts (bits akm) wpa.wpaakms = true
  · rw [if_pos hakms, settle_optional .ciphers (bits getwpacipher) fun _ _ => rfl]
    by_cases hciphers : accepts (bits getwpacipher) wpa.wpaciphers = true
    · rw [if_pos hciphers,
        settle_optional .groupcipher (fun v => getwpacipher v.bytes) fun _ _ => rfl]
      by_cases hgroup : accepts (fun v => getwpacipher v.bytes) wpa.wpagroupcipher = true
      · rw [if_pos hgroup, settle_key]
        simp only [Wifi.set_of_ne _ _ (show Setting.nwid ≠ .groupcipher by decide),
          Wifi.set_of_ne _ _ (show Setting.nwid ≠ .ciphers by decide),
          Wifi.set_of_ne _ _ (show Setting.nwid ≠ .akms by decide)]
        cases hpsk : wpa.wpakey.bind fun v => pskOf libc v (st .nwid) with
        | none =>
            cases s with
            | psk =>
                rw [accessWritten, if_pos ⟨hakms, hciphers, hgroup⟩, hpsk]
                simp [Wifi.set_of_ne]
            | _ => simp_all [accessWritten, Wifi.set_of_ne]
        | some psk => cases s <;> simp_all [accessWritten, Wifi.set_of_ne]
      · rw [if_neg hgroup]
        cases s <;> simp_all [accessWritten, Wifi.set_of_ne, bind_eq_none_of_not_accepts hgroup]
    · rw [if_neg hciphers]
      cases s <;> simp_all [accessWritten, Wifi.set_of_ne, bind_eq_none_of_not_accepts hciphers]
  · rw [if_neg hakms]
    cases s <;> simp_all [accessWritten, bind_eq_none_of_not_accepts hakms]

variable {w : Wireless StaticCfg WpaCfg} {past : List Byte}

/-- The network id an interface has when the key is set. -/
def nwidInForce (w : Wireless StaticCfg WpaCfg) (st : Wifi) : List Byte :=
  (newNwid w).getD (st .nwid)

theorem effect_nwid {st st' : Wifi} {c : Call} (h : effect libc st c = some st')
    (hc : c.handler ≠ .setifnwid) : st' .nwid = st .nwid := by
  unfold effect at h
  split at h
  · exact absurd rfl hc
  all_goals
    first
    | (cases h; rfl)
    | (obtain ⟨_, -, rfl⟩ := Option.map_eq_some_iff.1 h; rfl)
    | (split at h
       · cases h
         rfl
       · first
         | (split at h <;> (cases h; rfl))
         | (obtain ⟨_, -, rfl⟩ := Option.map_eq_some_iff.1 h; rfl))

theorem settle_nwid {calls : List Call} (hcalls : ∀ c ∈ calls, c.handler ≠ .setifnwid)
    (st : Wifi) : settle libc calls st .nwid = st .nwid := by
  induction calls generalizing st with
  | nil => rfl
  | cons c calls ih =>
      rw [settle]
      cases heffect : effect libc st c with
      | none => rfl
      | some st' =>
          rw [← effect_nwid heffect (hcalls c List.mem_cons_self)]
          exact ih (fun c hc => hcalls c (List.mem_cons_of_mem _ hc)) st'

theorem settle_accessCalls (wpa : WpaCfg) (id : CStr) (st : Wifi) (s : Setting) :
    settle libc (accessCalls wpa (some id)) st s =
      (accessWritten libc wpa id ((getString nwidLen id).getD (st .nwid)) s).getD (st s) := by
  have hnwid : effect libc st (.func .setifnwid (some id) 0) =
      some (st.set .nwid (getString nwidLen id)) := by
    simp only [effect]
    cases getString nwidLen id <;> rfl
  have hwpa : ∀ st : Wifi, effect libc st (.func .setifwpa (some (.lit "wpa")) 1) =
      some (Function.update st .enabled true) := fun _ => rfl
  simp only [accessCalls, settle, hnwid, hwpa]
  cases s with
  | nwid =>
      have hcalls : ∀ c ∈ optionCalls wpa, c.handler ≠ .setifnwid := by
        simp only [optionCalls, List.mem_append, List.mem_map]
        rintro c (⟨v, -, rfl⟩ | ⟨v, -, rfl⟩ | ⟨v, -, rfl⟩ | ⟨v, -, rfl⟩) <;>
          simp [Call.handler]
      rw [settle_nwid hcalls]
      simp [accessWritten]
  | _ =>
      rw [settle_optionCalls wpa id _ _ (by decide) (by simp)]
      simp [accessWritten, Wifi.set_of_ne]

/-- The settings of the interface when `connect_wireless` is done. -/
theorem settle_plan (hname : (iface w past).length ≤ 7) (st : Wifi) (s : Setting) :
    settle libc (plan w past) st s = (written libc w past (nwidInForce w st) s).getD (st s) := by
  have hlladdr : ∀ calls, settle libc
      ((w.lladdr.toList.map fun lladdr => .func .setiflladdr (some lladdr) 0) ++ calls) st =
        settle libc calls st := by
    intro calls
    cases w.lladdr <;> rfl
  have hbssid : effect libc st (.func .setifbssid (some (.lit "-bssid")) (-1)) =
      some (Function.update st .bssid (List.replicate 6 0)) := rfl
  have hshort : ¬ifnamsiz ≤ (iface w past).length := by
    rw [ifnamsiz]
    omega
  rw [plan, if_neg hshort, hlladdr, written, if_neg (Nat.not_lt.2 hname)]
  cases w.wpa with
  | none => rfl
  | some wpa =>
      simp only [Option.toList_some, List.flatMap_cons, List.flatMap_nil, List.append_nil, settle,
        hbssid, nwidInForce, newNwid]
      cases w.nwid with
      | none => cases s <;> simp [accessCalls, settle]
      | some id =>
          rw [settle_accessCalls]
          cases s <;> simp [accessWritten]

theorem target_of_length {name : CStr} (h : name.length ≤ 7) : target name = name := by
  rw [target, List.take_of_length_le h, CStr.read_bytes]

theorem target_ne {name : CStr} (h : 7 < name.length) : target name ≠ name := by
  intro heq
  have hlength : (target name).length = 7 := by
    have hnoNul : 0 ∉ name.bytes.take 7 := fun h0 => name.noNul (List.mem_of_mem_take h0)
    rw [target, CStr.length, CStr.read_of_noNul hnoNul, List.length_take]
    exact Nat.min_eq_left h.le
  rw [heq] at hlength
  omega

/-- What the settings of the section's interface are after `connect_wireless`. -/
theorem afterConnect_apply (libc : Libc) (inet6 execl : Bool) (past : List Byte)
    (w : Wireless StaticCfg WpaCfg) (k : CStr → Wifi) (s : Setting) :
    afterConnect libc inet6 execl past w k (iface w past) s =
      (written libc w past (nwidInForce w (k (iface w past))) s).getD (k (iface w past) s) := by
  rw [afterConnect]
  by_cases hname : (iface w past).length ≤ 7
  · simp only [target_of_length hname, Function.update_self]
    rw [settle_connectWireless, settle_plan hname]
  · have hlong : 7 < (iface w past).length := Nat.not_le.1 hname
    rw [written, if_pos hlong]
    simp only [Function.update_of_ne (target_ne hlong).symm, Option.getD_none]

/-- The network id in force matters only for the key. -/
theorem written_nwid (libc : Libc) (w : Wireless StaticCfg WpaCfg) (past : List Byte)
    (n₁ n₂ : List Byte) : written libc w past n₁ .nwid = written libc w past n₂ .nwid := by
  simp only [written]
  split
  · rfl
  · cases w.wpa <;> cases w.nwid <;> rfl

/-- Two states that end up with one network id get the same settings. -/
theorem written_congr {st₁ st₂ : Wifi}
    (h : (written libc w past (nwidInForce w st₁) .nwid).getD (st₁ .nwid) =
      (written libc w past (nwidInForce w st₂) .nwid).getD (st₂ .nwid)) (s : Setting) :
    written libc w past (nwidInForce w st₁) s = written libc w past (nwidInForce w st₂) s := by
  simp only [written, nwidInForce, newNwid] at h ⊢
  split
  · rfl
  · next hname =>
      rw [if_neg hname, if_neg hname] at h
      cases hwpa : w.wpa with
      | none => rfl
      | some wpa =>
          rw [hwpa] at h
          cases hnwid : w.nwid with
          | none => rfl
          | some id =>
              simp only [hnwid, accessWritten] at h
              simp only [Option.bind_some, h]

/-- The settings after `connect_wireless` are the same from two states of the interface
exactly if these agree on every setting that the section does not set. -/
theorem afterConnect_eq_iff (libc : Libc) (inet6 execl : Bool) (past : List Byte)
    (w : Wireless StaticCfg WpaCfg) (k : CStr → Wifi) (st₁ st₂ : Wifi) :
    afterConnect libc inet6 execl past w (Function.update k (iface w past) st₁) (iface w past) =
        afterConnect libc inet6 execl past w (Function.update k (iface w past) st₂)
          (iface w past) ↔
      ∀ s, (written libc w past (nwidInForce w st₁) s).isSome ∨ st₁ s = st₂ s := by
  have hafter : ∀ st s, afterConnect libc inet6 execl past w
      (Function.update k (iface w past) st) (iface w past) s =
        (written libc w past (nwidInForce w st) s).getD (st s) := by
    intro st s
    rw [afterConnect_apply, Function.update_self]
  constructor
  · intro h s
    have hnwid := congrFun h .nwid
    rw [hafter, hafter] at hnwid
    have hwritten := written_congr hnwid s
    have hs := congrFun h s
    rw [hafter, hafter, ← hwritten] at hs
    cases hv : written libc w past (nwidInForce w st₁) s with
    | none =>
        rw [hv] at hs
        exact .inr hs
    | some v => exact .inl rfl
  · intro h
    have hnwid : (written libc w past (nwidInForce w st₁) .nwid).getD (st₁ .nwid) =
        (written libc w past (nwidInForce w st₂) .nwid).getD (st₂ .nwid) := by
      rw [written_nwid libc w past (nwidInForce w st₂) (nwidInForce w st₁)]
      rcases h .nwid with hsome | heq
      · obtain ⟨v, hv⟩ := Option.isSome_iff_exists.1 hsome
        rw [hv, Option.getD_some, Option.getD_some]
      · rw [heq]
    funext s
    rw [hafter, hafter, ← written_congr hnwid s]
    rcases h s with hsome | heq
    · obtain ⟨v, hv⟩ := Option.isSome_iff_exists.1 hsome
      rw [hv, Option.getD_some, Option.getD_some]
    · rw [heq]

end Written

/-- A section for the network `home`, with a key and no other WPA option. -/
def home : Wireless StaticCfg WpaCfg :=
  { (Wireless.zero : Wireless StaticCfg WpaCfg) with
    interface := strncpy interfaceSize (.lit "iwn0")
    nwid := some (.lit "home")
    wpa := some ⟨some (.lit "correct horse"), none, none, none⟩ }

/-- The settings of an interface on a channel. -/
def onChannel (channel : Nat) : Wifi
  | .nwid | .bssid => []
  | .channel => channel
  | .akms | .ciphers | .groupcipher => 0
  | .enabled => false
  | .psk => none

/-- A password hash that puts the password and the network id together. -/
def someLibc : Libc := ⟨fun _ => none, fun _ _ _ => none, fun key nwid => some (key.bytes ++ nwid)⟩

/-- The channel of the previous network is kept. -/
theorem channel_left_over :
    iface home [] = .lit "iwn0" ∧
      afterConnect someLibc false false [] home
          (Function.update (fun _ => onChannel 1) (.lit "iwn0") (onChannel 1)) (.lit "iwn0")
          .channel = (1 : Nat) ∧
      afterConnect someLibc false false [] home
          (Function.update (fun _ => onChannel 1) (.lit "iwn0") (onChannel 11)) (.lit "iwn0")
          .channel = (11 : Nat) := by
  decide +kernel

end Ifconfigd.Connect
