import Ifconfigd.Config

/-!
# Watching the links of the ethernet sections

`monitor_ethernet` asks `active_check` for the state of each section's link and
connects the first section whose link became active. It keeps the last state it saw
in a local variable, so what it compares a state with is the state of the section
before it in the list, and for the first section whatever the variable contained.

A section's interface field is an array of pointers used as a character array, and
`active_check` gets its first element: the first eight bytes of the name, taken for
an address.
-/

namespace Ifconfigd.Monitor

open CLib

/-! ## The state of a link -/

/-- `struct if_status_description`. -/
structure IfStatusDescription where
  type : Nat
  state : Nat
  string : CStr

/-- `LINK_STATE_DESCRIPTIONS`. The types are `IFT_ETHER`, `IFT_IEEE80211`, `IFT_PPP`,
`IFT_CARP` and 0 for any; the states are numbered from `LINK_STATE_UNKNOWN` on. -/
def ifStatusDescriptions : List IfStatusDescription :=
  [⟨0x06, 2, .lit "no carrier"⟩, ⟨0x47, 2, .lit "no network"⟩, ⟨0x17, 2, .lit "no carrier"⟩,
    ⟨0xf7, 2, .lit "backup"⟩, ⟨0xf7, 4, .lit "master"⟩, ⟨0xf7, 5, .lit "master"⟩,
    ⟨0xf7, 6, .lit "master"⟩, ⟨0, 4, .lit "active"⟩, ⟨0, 5, .lit "active"⟩,
    ⟨0, 6, .lit "active"⟩, ⟨0, 0, .lit "unknown"⟩, ⟨0, 1, .lit "invalid"⟩, ⟨0, 2, .lit "down"⟩,
    ⟨0, 3, .lit "keepalive down"⟩]

/-- `get_linkstate`. A state without a description is printed into a buffer of eight
bytes. -/
def getLinkstate (mt linkState : Nat) : CStr :=
  match ifStatusDescriptions.find? fun p => (p.type = mt ∨ p.type = 0) ∧ p.state = linkState with
  | some p => p.string
  | none => .read ((asciiBytes ("[#" ++ toString linkState ++ "]")).take 7)

/-- An entry of the list `getifaddrs` makes; `link` is there for addresses of the
family `AF_LINK` and holds `sdl_type` and `ifi_link_state`. -/
structure Ifaddr where
  name : CStr
  link : Option (Nat × Nat)

def digit (b : Byte) : Bool := 48 ≤ b && b ≤ 57

/-- Whether `active_check` looks at an entry: the name asked for is the entry's, or a
name without a number that the entry's continues with one. -/
def selects (ifname : Option CStr) (ifaName : CStr) : Bool :=
  match ifname with
  | none => true
  | some oname =>
      if oname.bytes.getLast?.any digit then oname = ifaName
      else oname.bytes.isPrefixOf ifaName.bytes && ifaName.bytes[oname.length]?.any digit

/-- `active_check`; `none` is the end of the function, which has no `return`. -/
def activeCheck (ifap : List Ifaddr) (ifname : Option CStr) : Option CStr :=
  ifap.findSome? fun ifa =>
    if selects ifname ifa.name then ifa.link.map fun link => getLinkstate link.1 link.2 else none

/-! ## The monitor -/

/-- What a call of `monitor_ethernet` finds: the addresses of the interfaces, the
text at an address of memory, what a call of `active_check` that returns nothing
leaves for a return value, and the contents of the local `ifstat_n`. -/
structure World where
  ifap : List Ifaddr
  text : Nat → CStr
  stray : CStr
  ifstatN : Option CStr

/-- The argument `eth->interface[0]`, a null pointer for an empty name. -/
def World.interface (w : World) (eth : Ethernet StaticCfg) : Option CStr :=
  let address := ofLittleEndian (eth.interface.take 8)
  if address = 0 then none else some (w.text address)

/-- `active_check(eth->interface[0])`. -/
def World.look (w : World) (eth : Ethernet StaticCfg) : CStr :=
  (activeCheck w.ifap (w.interface eth)).getD w.stray

/-- `strncmp(ifstat_n, "active", 6) == 0`. -/
def isActive (ifstatN : CStr) : Bool := (CStr.lit "active").bytes.isPrefixOf ifstatN.bytes

/-- The old state is not null and `strncmp(ifstat_n, ifstat_o, sizeof(ifstat_o)) != 0`. -/
def changed (ifstatO : Option CStr) (ifstatN : CStr) : Bool :=
  match ifstatO with
  | none => false
  | some o => ifstatN.bytes.take 8 ≠ o.bytes.take 8

/-- The loop of `monitor_ethernet` over the sections that are left, with the value
`ifstat_n` has so far: the position of the section `connect_ethernet` is called on. -/
def monitorLoop (w : World) : Option CStr → List (Ethernet StaticCfg) → Option Nat
  | _, [] => none
  | ifstatO, eth :: rest =>
      if changed ifstatO (w.look eth) && isActive (w.look eth) then some 0
      else (monitorLoop w (some (w.look eth)) rest).map (· + 1)

/-- `monitor_ethernet`. -/
def monitorEthernet (conf : IfconfigdConf) (w : World) : Option Nat :=
  monitorLoop w w.ifstatN conf.ethernets

/-! ## Runs -/

/-- The state each interface was in when it was last looked at. -/
abbrev Seen := List Byte → Option CStr

/-- The sections a call looks at: up to the one it connects. -/
def looked (conf : IfconfigdConf) (w : World) : List (Ethernet StaticCfg) :=
  match monitorEthernet conf w with
  | some i => conf.ethernets.take (i + 1)
  | none => conf.ethernets

def Seen.record (seen : Seen) (conf : IfconfigdConf) (w : World) : Seen := fun interface =>
  match (looked conf w).find? fun eth => eth.interface = interface with
  | some eth => some (w.look eth)
  | none => seen interface

/-- What was seen before call `k` of a run. -/
def seenBefore (conf : IfconfigdConf) (worlds : Nat → World) : Nat → Seen
  | 0 => fun _ => none
  | k + 1 => (seenBefore conf worlds k).record conf (worlds k)

/-- The interface of the section is active now and was not when it was last looked at. -/
def CameUp (seen : Seen) (w : World) (eth : Ethernet StaticCfg) : Prop :=
  isActive (w.look eth) ∧ ∀ s ∈ seen eth.interface, ¬isActive s

instance (seen : Seen) (w : World) (eth : Ethernet StaticCfg) : Decidable (CameUp seen w eth) :=
  inferInstanceAs (Decidable (_ ∧ _))

/-- What `ifstat_o` is when a section is reached: the state of the section before it. -/
def World.shown (w : World) (before : Option CStr) (passed : List (Ethernet StaticCfg)) :
    Option CStr :=
  match passed.getLast? with
  | none => before
  | some eth => some (w.look eth)

/-- For the sections up to the first one that came up: if one is active, the section
before it tells whether it came up, by being in another state. -/
def NeighbourTells (conf : IfconfigdConf) (seen : Seen) (w : World) : Prop :=
  ∀ passed eth rest, conf.ethernets = passed ++ eth :: rest →
    (∀ e ∈ passed, ¬CameUp seen w e) → isActive (w.look eth) →
    (changed (w.shown w.ifstatN passed) (w.look eth) ↔ CameUp seen w eth)

theorem shown_cons (w : World) (before : Option CStr) (eth : Ethernet StaticCfg)
    (passed : List (Ethernet StaticCfg)) :
    w.shown before (eth :: passed) = w.shown (some (w.look eth)) passed := by
  cases passed with
  | nil => rfl
  | cons e passed => simp [World.shown, List.getLast?_cons]

/-- The places in a list are its head and those in its tail. -/
theorem forall_split_cons {A : Type*} {P : List A → A → List A → Prop} (x : A) (xs : List A) :
    (∀ passed a rest, x :: xs = passed ++ a :: rest → P passed a rest) ↔
      P [] x xs ∧ ∀ passed a rest, xs = passed ++ a :: rest → P (x :: passed) a rest := by
  constructor
  · intro h
    refine ⟨h [] x xs rfl, ?_⟩
    intro passed a rest heq
    exact h (x :: passed) a rest (by rw [heq]; rfl)
  · rintro ⟨hhead, htail⟩ passed a rest heq
    cases passed with
    | nil =>
        cases heq
        exact hhead
    | cons y passed =>
        cases heq
        exact htail passed a rest rfl

/-- The loop finds the first of the sections that `Q` holds of, where `Q` holds of
active ones only, exactly if the comparison with the neighbour decides `Q` up to it. -/
theorem monitorLoop_eq_findIdx?_iff (w : World) {Q : Ethernet StaticCfg → Prop}
    [DecidablePred Q] (hQ : ∀ eth, Q eth → isActive (w.look eth)) (before : Option CStr)
    (eths : List (Ethernet StaticCfg)) :
    monitorLoop w before eths = eths.findIdx? (Q ·) ↔
      ∀ passed eth rest, eths = passed ++ eth :: rest → (∀ e ∈ passed, ¬Q e) →
        isActive (w.look eth) → (changed (w.shown before passed) (w.look eth) ↔ Q eth) := by
  induction eths generalizing before with
  | nil => simp [monitorLoop]
  | cons eth eths ih =>
      have hmap : Function.Injective (Option.map (· + 1) : Option Nat → Option Nat) :=
        Option.map_injective (add_left_injective 1)
      rw [forall_split_cons, monitorLoop, List.findIdx?_cons]
      simp only [shown_cons, List.not_mem_nil, List.mem_cons, forall_eq_or_imp]
      by_cases hQe : Q eth
      · -- The search ends here, and so must the loop.
        have hactive := hQ eth hQe
        by_cases hch : changed before (w.look eth) <;>
          simp [hQe, hactive, hch, World.shown]
      · by_cases hhit : changed before (w.look eth) && isActive (w.look eth)
        · -- The loop ends here, though `Q` does not hold.
          obtain ⟨hch, hactive⟩ := (Bool.and_eq_true _ _).mp hhit
          simp [hQe, hactive, hch, World.shown]
        · have hpass : isActive (w.look eth) = true → changed before (w.look eth) = false := by
            grind
          rw [if_neg hhit, decide_eq_false hQe, if_neg Bool.false_ne_true, hmap.eq_iff, ih]
          constructor
          · intro h
            refine ⟨fun _ hactive => ?_, fun passed e rest heq hpassed => ?_⟩
            · simp [World.shown, hpass hactive, hQe]
            · exact h passed e rest heq hpassed.2
          · rintro ⟨-, h⟩ passed e rest heq hpassed
            exact h passed e rest heq ⟨hQe, hpassed⟩

/-- A section on the interface of that name. -/
def sectionOn (interface : String) : Ethernet StaticCfg :=
  { Ethernet.zero with interface := strncpy interfaceSize (.lit interface) }

/-- One network with a section on each of two interfaces. -/
def twoSections : IfconfigdConf :=
  ⟨[⟨List.replicate nameSize 0, [sectionOn "em0", sectionOn "em1"], []⟩], 5⟩

/-- `em0` has no carrier and `em1` is active, in every call. -/
def steadyLinks : World where
  ifap := [⟨.lit "em0", some (0x06, 2)⟩, ⟨.lit "em1", some (0x06, 6)⟩]
  text address := .read (toLittleEndian 8 address)
  stray := .lit ""
  ifstatN := none

end Ifconfigd.Monitor
