import Ifconfigd.Lib.Slots
import Ifconfigd.Monitor.Connect

/-!
# The address step

`connect_ethernet` and `connect_wireless` end in the same piece of code: with DHCP the
process becomes `dhclient`, and without it the static address is passed to
`ifconfig_gate`. The vector for the gate is made in the local array `todo`. After its
first two slots were filled, `bzero` clears eleven bytes of it, which are the first slot
and the beginning of the second.

The two functions differ in what they return when `dhclient` cannot be executed or when
there is nothing to do. Neither returns -1 in all these cases.
-/

namespace Ifconfigd.Connect

open CLib Gate

/-! ## The vector in memory -/

/-- Where the strings of the program and those of a section lie in memory. -/
structure Layout where
  literal : CStr → Nat
  stored : CStr → Nat
  literal_pos : ∀ s, 0 < literal s

/-- The array `todo` before the address step: eleven pointers with any contents. -/
structure Todo where
  bytes : List Byte
  length_eq : bytes.length = ptrSize * 11

/-- The stores and the calls of `bzero` up to the call of `ifconfig_gate`: `argc`, and the
array. -/
def staticTodo (layout : Layout) (todo : Todo) (static : StaticCfg) : Nat × List Byte :=
  let bytes := bzero 11 todo.bytes
  let bytes := storePtr 0 (layout.literal (.lit "inet")) bytes
  let bytes := storePtr 1 (static.inet.elim 0 layout.stored) bytes
  let bytes := bzero 11 bytes
  match static.netmask with
  | none => (2, bytes)
  | some netmask =>
      (4, storePtr 3 (layout.stored netmask)
        (storePtr 2 (layout.literal (.lit "netmask")) bytes))

/-- What the address step passes to `ifconfig_gate`: `argc` and as many slots; `none` if it
does not call it. -/
def addressStep (layout : Layout) (todo : Todo) (isdhcp : Int) (staticopts : Option StaticCfg) :
    Option (Nat × List Nat) :=
  if isdhcp = 1 then none
  else
    staticopts.map fun static =>
      let built := staticTodo layout todo static
      (built.1, (List.range built.1).map fun i => loadPtr i built.2)

/-- The address step of `connect_ethernet`. -/
def connectEthernetStep (layout : Layout) (todo : Todo) (eth : Ethernet StaticCfg) :
    Option (Nat × List Nat) :=
  addressStep layout todo eth.isdhcp eth.staticopts

/-- The address step of `connect_wireless`. -/
def connectWirelessStep (layout : Layout) (todo : Todo) (w : Wireless StaticCfg WpaCfg) :
    Option (Nat × List Nat) :=
  addressStep layout todo w.isdhcp w.staticopts

/-- The vector a static configuration asks for: its address and its netmask. -/
def wantedVector (layout : Layout) (staticopts : Option StaticCfg) : Option (Nat × List Nat) :=
  staticopts.bind fun static =>
    static.inet.map fun inet =>
      match static.netmask with
      | none => (2, [layout.literal (.lit "inet"), layout.stored inet])
      | some netmask =>
          (4, [layout.literal (.lit "inet"), layout.stored inet,
            layout.literal (.lit "netmask"), layout.stored netmask])

/-- The first slot is null when the gate is called. -/
theorem loadPtr_staticTodo (layout : Layout) (todo : Todo) (static : StaticCfg) :
    loadPtr 0 (staticTodo layout todo static).2 = 0 := by
  have hnull : ∀ bytes, loadPtr 0 (bzero 11 bytes) = 0 := loadPtr_bzero (by decide)
  have hlen : ∀ {bytes}, bytes.length = ptrSize * 11 → (bzero 11 bytes).length = ptrSize * 11 := by
    intro bytes h
    rw [bzero_length (by rw [h]; decide), h]
  have hstore : ∀ {i p bytes}, i < 11 → bytes.length = ptrSize * 11 →
      (storePtr i p bytes).length = ptrSize * 11 := by
    intro i p bytes hi h
    rw [storePtr_length p (by rw [h, ptrSize]; omega), h]
  have hbuilt : ∀ a b, (bzero 11 (storePtr 1 b (storePtr 0 a (bzero 11 todo.bytes)))).length =
      ptrSize * 11 := fun a b =>
    hlen (hstore (by decide) (hstore (by decide) (hlen todo.length_eq)))
  rw [staticTodo]
  cases static.netmask with
  | none => exact hnull _
  | some netmask =>
      dsimp only
      rw [loadPtr_storePtr_of_lt (by decide) _ (by rw [hstore (by decide) (hbuilt _ _)]; decide),
        loadPtr_storePtr_of_lt (by decide) _ (by rw [hbuilt]; decide)]
      exact hnull _

theorem staticTodo_argc_pos (layout : Layout) (todo : Todo) (static : StaticCfg) :
    0 < (staticTodo layout todo static).1 := by
  rw [staticTodo]
  cases static.netmask <;> exact Nat.succ_pos _

/-- The vector that is asked for begins with the text `inet`. -/
theorem head_wantedVector {layout : Layout} {staticopts : Option StaticCfg}
    {v : Nat × List Nat} (h : wantedVector layout staticopts = some v) :
    v.2.head? = some (layout.literal (.lit "inet")) := by
  obtain ⟨static, -, h⟩ := Option.bind_eq_some_iff.1 h
  obtain ⟨inet, -, rfl⟩ := Option.map_eq_some_iff.1 h
  cases static.netmask <;> rfl

/-- The address step does what the section asks for exactly if it does nothing. -/
theorem addressStep_iff (layout : Layout) (todo : Todo) (isdhcp : Int)
    (staticopts : Option StaticCfg) :
    (isdhcp ≠ 1 → addressStep layout todo isdhcp staticopts = wantedVector layout staticopts) ↔
      isdhcp = 1 ∨ staticopts = none := by
  constructor
  · intro h
    by_contra hnot
    obtain ⟨hdhcp, hstatic⟩ := not_or.1 hnot
    obtain ⟨static, rfl⟩ := Option.ne_none_iff_exists'.1 hstatic
    have hpassed := h hdhcp
    rw [addressStep, if_neg hdhcp, Option.map_some] at hpassed
    have hhead := head_wantedVector hpassed.symm
    dsimp only at hhead
    obtain ⟨k, hk⟩ := Nat.exists_eq_succ_of_ne_zero (staticTodo_argc_pos layout todo static).ne'
    rw [hk, List.range_succ_eq_map, List.map_cons, List.head?_cons, loadPtr_staticTodo] at hhead
    exact (layout.literal_pos (.lit "inet")).ne (Option.some.inj hhead)
  · rintro (hdhcp | rfl) hoff
    · exact absurd hdhcp hoff
    · rw [addressStep, if_neg hoff]
      rfl

/-- For every section, wherever its strings lie and whatever `todo` held before: with DHCP
off the two functions pass the configured address on exactly if there is no static record
and so nothing to pass on. -/
theorem static_address_passed_iff (layout : Layout) (todo : Todo) (eth : Ethernet StaticCfg)
    (w : Wireless StaticCfg WpaCfg) :
    ((eth.isdhcp ≠ 1 →
        connectEthernetStep layout todo eth = wantedVector layout eth.staticopts) ↔
      eth.isdhcp = 1 ∨ eth.staticopts = none) ∧
    ((w.isdhcp ≠ 1 →
        connectWirelessStep layout todo w = wantedVector layout w.staticopts) ↔
      w.isdhcp = 1 ∨ w.staticopts = none) :=
  ⟨addressStep_iff layout todo eth.isdhcp eth.staticopts,
    addressStep_iff layout todo w.isdhcp w.staticopts⟩

/-- An ethernet section with an address. -/
def oneAddress : Parse.FileSystem where
  stdin := asciiBytes "network n \x7b\nethernet e \x7b\ninet \"10.0.0.1\"\n\x7d\n\x7d\n"
  inode _ := none
  uid := 0
  openMax := none

/-- The parser reads the address, and the vector passed begins with a null pointer. -/
theorem static_address_wiped :
    ∃ conf g, Parse.parseConfig oneAddress 200 (.lit "-") (.initial []) =
        some (.returned (some conf) g) ∧
      ∃ eth ∈ conf.ethernets, eth.isdhcp = 0 ∧
        eth.staticopts.bind StaticCfg.inet = some (.lit "10.0.0.1") ∧
        connectEthernetStep ⟨fun _ => 4096, fun _ => 0x7f12345678, fun _ => by decide⟩
          ⟨List.replicate (ptrSize * 11) 0, by simp⟩ eth = some (2, [0, 0x7f12000000]) ∧
        wantedVector ⟨fun _ => 4096, fun _ => 0x7f12345678, fun _ => by decide⟩ eth.staticopts =
          some (2, [4096, 0x7f12345678]) := by
  have hparse : Parse.acceptedWith
      (fun conf _ => conf.ethernets.any fun eth => eth.isdhcp = 0 ∧
        eth.staticopts.bind StaticCfg.inet = some (.lit "10.0.0.1") ∧
        connectEthernetStep ⟨fun _ => 4096, fun _ => 0x7f12345678, fun _ => by decide⟩
          ⟨List.replicate (ptrSize * 11) 0, by simp⟩ eth = some (2, [0, 0x7f12000000]) ∧
        wantedVector ⟨fun _ => 4096, fun _ => 0x7f12345678, fun _ => by decide⟩ eth.staticopts =
          some (2, [4096, 0x7f12345678]))
      (Parse.parseConfig oneAddress 200 (.lit "-") (.initial [])) = true := by
    decide +kernel
  obtain ⟨conf, g, hconf, hany⟩ := Parse.exists_of_acceptedWith hparse
  obtain ⟨eth, heth, htest⟩ := List.any_eq_true.1 hany
  exact ⟨conf, g, hconf, eth, heth, of_decide_eq_true htest⟩

/-! ## The values returned -/

/-- `connect_ethernet`: the value returned, or what becomes of the process. `exec` says
whether `dhclient` can be executed; `execle` returns -1 if not. The name of the interface
is the text at the address made up of the first bytes of the array. -/
def connectEthernet (inet6 : Bool) (env : Env) (exec : Bool) (text : Nat → Option CStr)
    (hist : List Call) (eth : Ethernet StaticCfg) : Except Process Int :=
  if eth.isdhcp = 1 then
    if exec then .error .replaced
    else if (-1 : Int) ≠ 0 then .ok 0
    else .ok (-1)
  else
    match eth.staticopts with
    | some static =>
        match text (ofLittleEndian (eth.interface.take ptrSize)) with
        | none => .error .crashed
        | some name =>
            match (ifconfigGate inet6 env (staticArgv static) name hist).2 with
            | .running => .ok 0
            | ended => .error ended
    | none => .ok (-1)

/-- The value `connect_wireless` returns: 0 behind a successful test of `execl`, behind the
static step and at the end. -/
def connectWirelessReturn (inet6 : Bool) (env : Env) (exec : Bool) (past : List Byte)
    (w : Wireless StaticCfg WpaCfg) : Except Process Int :=
  match (connectWireless inet6 env exec past w).2 with
  | .running => .ok 0
  | ended => .error ended

/-- A static address is configured. -/
def HasAddress (staticopts : Option StaticCfg) : Prop :=
  ∃ static, staticopts = some static ∧ static.inet ≠ none

/-- What the value returned tells: 0 means that `dhclient` runs or that a configured
address was handed on, and where neither can be the value is -1. -/
structure Truthful (isdhcp : Int) (staticopts : Option StaticCfg) (exec : Bool)
    (r : Except Process Int) : Prop where
  success : r = .ok 0 → isdhcp = 1 ∧ exec = true ∨ isdhcp ≠ 1 ∧ HasAddress staticopts
  failure : isdhcp = 1 ∧ exec = false ∨ isdhcp ≠ 1 ∧ ¬HasAddress staticopts → r = .ok (-1)

/-- A vector that begins with a null pointer ends the process. -/
theorem ifconfigGate_static_stops (inet6 : Bool) (env : Env) (static : StaticCfg) (name : CStr)
    (hist : List Call) : (ifconfigGate inet6 env (staticArgv static) name hist).2 ≠ .running := by
  rw [ifconfigGate]
  split
  · intro h
    cases h
  · simp [staticArgv, wordsOf, dropAf, gateLoop]

section Values

variable (inet6 : Bool) (env : Env) (exec : Bool) (text : Nat → Option CStr) (hist : List Call)
  (past : List Byte)

/-- With a static record `connect_ethernet` does not return. -/
theorem connectEthernet_static {eth : Ethernet StaticCfg} (hdhcp : eth.isdhcp ≠ 1)
    {static : StaticCfg} (hstatic : eth.staticopts = some static) (v : Int) :
    connectEthernet inet6 env exec text hist eth ≠ .ok v := by
  simp only [connectEthernet, if_neg hdhcp, hstatic]
  split
  · intro h
    cases h
  · split
    · next hrun => exact absurd hrun (ifconfigGate_static_stops inet6 env static _ hist)
    · intro h
      cases h

theorem connectEthernet_truthful_iff (eth : Ethernet StaticCfg) :
    Truthful eth.isdhcp eth.staticopts exec (connectEthernet inet6 env exec text hist eth) ↔
      (eth.isdhcp = 1 → exec = true) ∧
        (eth.isdhcp ≠ 1 → eth.staticopts = none ∨ HasAddress eth.staticopts) := by
  by_cases hdhcp : eth.isdhcp = 1
  · cases exec with
    | true => exact iff_of_true ⟨by simp [connectEthernet, hdhcp], by simp [hdhcp]⟩ (by simp [hdhcp])
    | false =>
        refine iff_of_false (fun h => ?_) (by simp [hdhcp])
        have hfails := h.failure (.inl ⟨hdhcp, rfl⟩)
        simp [connectEthernet, hdhcp] at hfails
  · cases hstatic : eth.staticopts with
    | none => exact iff_of_true ⟨by simp [connectEthernet, hdhcp, hstatic],
        by simp [connectEthernet, hdhcp, hstatic]⟩ (by simp [hdhcp])
    | some static =>
        have hlost := connectEthernet_static inet6 env exec text hist hdhcp hstatic
        constructor
        · intro h
          refine ⟨fun heq => absurd heq hdhcp, fun _ => .inr ?_⟩
          by_contra hnone
          exact hlost _ (h.failure (.inr ⟨hdhcp, hnone⟩))
        · rintro ⟨-, haddress⟩
          have haddress := (haddress hdhcp).resolve_left (Option.some_ne_none _)
          refine ⟨fun hzero => absurd hzero (hlost 0), ?_⟩
          rintro (⟨heq, -⟩ | ⟨-, hnone⟩)
          · exact absurd heq hdhcp
          · exact absurd haddress hnone

/-- `connect_wireless` never reports a failure. -/
theorem connectWirelessReturn_ne (w : Wireless StaticCfg WpaCfg) :
    connectWirelessReturn inet6 env exec past w ≠ .ok (-1) := by
  rw [connectWirelessReturn]
  split <;> simp

theorem connectWireless_truthful_iff (w : Wireless StaticCfg WpaCfg) :
    Truthful w.isdhcp w.staticopts exec (connectWirelessReturn inet6 env exec past w) ↔
      (w.isdhcp = 1 → exec = true) ∧ (w.isdhcp ≠ 1 → HasAddress w.staticopts) := by
  have hne := connectWirelessReturn_ne inet6 env exec past w
  constructor
  · intro h
    constructor
    · intro hdhcp
      by_contra hexec
      exact hne (h.failure (.inl ⟨hdhcp, by simpa using hexec⟩))
    · intro hdhcp
      by_contra haddress
      exact hne (h.failure (.inr ⟨hdhcp, haddress⟩))
  · rintro ⟨hexec, haddress⟩
    constructor
    · intro _
      by_cases hdhcp : w.isdhcp = 1
      · exact .inl ⟨hdhcp, hexec hdhcp⟩
      · exact .inr ⟨hdhcp, haddress hdhcp⟩
    · rintro (⟨hdhcp, hfails⟩ | ⟨hdhcp, hnone⟩)
      · rw [hexec hdhcp] at hfails
        cases hfails
      · exact absurd (haddress hdhcp) hnone

end Values

/-- For every section, every outcome of the execution of `dhclient` and whatever the
handlers do: what `connect_ethernet` returns is truthful exactly if `dhclient` can be
executed where it is asked for and a static record has an address; for
`connect_wireless` a section without DHCP must have a static address. -/
theorem connect_truthful_iff (inet6 : Bool) (env : Env) (exec : Bool) (text : Nat → Option CStr)
    (hist : List Call) (past : List Byte) (eth : Ethernet StaticCfg)
    (w : Wireless StaticCfg WpaCfg) :
    (Truthful eth.isdhcp eth.staticopts exec (connectEthernet inet6 env exec text hist eth) ↔
      (eth.isdhcp = 1 → exec = true) ∧
        (eth.isdhcp ≠ 1 → eth.staticopts = none ∨ HasAddress eth.staticopts)) ∧
    (Truthful w.isdhcp w.staticopts exec (connectWirelessReturn inet6 env exec past w) ↔
      (w.isdhcp = 1 → exec = true) ∧ (w.isdhcp ≠ 1 → HasAddress w.staticopts)) :=
  ⟨connectEthernet_truthful_iff inet6 env exec text hist eth,
    connectWireless_truthful_iff inet6 env exec past w⟩

/-- Without `dhclient` both functions return 0 for a section with DHCP. -/
theorem connect_hides_failure :
    let eth : Ethernet StaticCfg := { Ethernet.zero with isdhcp := 1 }
    let w : Wireless StaticCfg WpaCfg := { Wireless.zero with isdhcp := 1 }
    connectEthernet true .never false (fun _ => none) [] eth = .ok 0 ∧
      connectWirelessReturn true .never false [] w = .ok 0 ∧
      ¬Truthful eth.isdhcp eth.staticopts false
        (connectEthernet true .never false (fun _ => none) [] eth) := by
  refine ⟨rfl, rfl, fun h => ?_⟩
  have hzero := h.failure (.inl ⟨rfl, rfl⟩)
  cases hzero

end Ifconfigd.Connect
