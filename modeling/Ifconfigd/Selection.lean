import Ifconfigd.Control
import Ifconfigd.Parent.Actions
import Ifconfigd.Parse.Invariants

/-!
# Selecting an ethernet section by name

`ifconfigctl uselan n` sends the name to the engine, which hands the request to the
parent, which looks the name up in its configuration. This module follows a name
through the four pieces of code and says for which names the section found is the
one asked for.

The engine passes on `sizeof(imsg.data)` bytes, the size of a pointer, and the parent
copies 64 bytes from there. A name of at most seven characters arrives with its
terminating NUL; of a longer one the first eight characters arrive, followed by
whatever the parent has behind the payload.
-/

namespace Ifconfigd.Selection

open CLib Yacc Parse

/-! ## Names in a parsed configuration -/

/-- The name fields of all ethernet sections in the heap were filled by `strncpy`. -/
def NamesCopied (y : Yy) : Prop := ∀ e ∈ y.heap.ethers, ∃ n : CStr, e.Named n

theorem mem_modify {A : Type*} {l : List A} {i : Nat} {f : A → A} {a : A} (h : a ∈ l.modify i f) :
    a ∈ l ∨ ∃ b ∈ l, a = f b := by
  induction l generalizing i with
  | nil => simp at h
  | cons b l ih =>
      cases i with
      | zero => grind
      | succ i => grind

theorem setEther_namesCopied {y : Yy} (hy : NamesCopied y) (v : Val)
    {f : Ethernet Nat → Ethernet Nat} (hf : ∀ e, (f e).name = e.name) :
    (setEther v f y).Holds NamesCopied := by
  apply withPtr_holds
  intro p e he
  rcases mem_modify he with he | ⟨e', he', rfl⟩
  · exact hy e he
  · obtain ⟨n, hn⟩ := hy e' he'
    exact ⟨n, (hf e').trans hn⟩

theorem actEthernet_namesCopied {y : Yy} (hy : NamesCopied y) (v : Val) (name : CStr) :
    (actEthernet v name y).Holds NamesCopied := by
  apply withPtr_holds
  intro p e he
  rcases List.mem_append.1 he with he | he
  · exact hy e he
  · cases List.mem_singleton.1 he
    exact ⟨name, rfl⟩

theorem actEthernetDhcp_namesCopied {y : Yy} (hy : NamesCopied y) (v : Val) (yes : Int) :
    (actEthernetDhcp v yes y).Holds NamesCopied := by
  simp only [actEthernetDhcp]
  split
  · apply setEther_namesCopied
    · split <;> exact hy
    · exact fun _ => rfl
  · exact setEther_namesCopied hy v fun _ => rfl

theorem actWirelessDhcp_namesCopied {y : Yy} (hy : NamesCopied y) (v : Val) (yes : Int) :
    (actWirelessDhcp v yes y).Holds NamesCopied := by
  simp only [actWirelessDhcp]
  split <;> exact withPtr_holds fun _ => hy

theorem actInclude_namesCopied {y : Yy} (hy : NamesCopied y) (fs : FileSystem) (v : Val)
    (name : CStr) : (actInclude fs v name y).Holds NamesCopied := by
  simp only [actInclude]
  split <;> exact hy

theorem actGlobal_namesCopied {y : Yy} (hy : NamesCopied y) (v : Val) (n : Int) :
    (actGlobal v n y).Holds NamesCopied := by
  simp only [actGlobal]
  split <;> exact hy

theorem actNetwork_namesCopied {y : Yy} (hy : NamesCopied y) (v : Val) (name : CStr) :
    (actNetwork v name y).Holds NamesCopied := by
  simp only [actNetwork]
  split <;> exact hy

theorem action_namesCopied (fs : FileSystem) (n : Nat) (vs : List Val) (v : Val) {y : Yy}
    (hy : NamesCopied y) : (action fs n vs v y).Holds NamesCopied := by
  unfold action
  -- One goal for each rule with an action; only those of ethernet sections touch `ethers`.
  split
  all_goals first
    | exact hy
    | exact withString_holds fun _ => withPtr_holds fun _ => hy
    | exact withNumber_holds fun _ => withPtr_holds fun _ => hy
    | exact withString_holds fun _ => withString_holds fun _ => hy
    | exact withString_holds fun _ => setEther_namesCopied hy _ fun _ => rfl
    | exact withNumber_holds fun _ => setEther_namesCopied hy _ fun _ => rfl
    | exact withString_holds fun _ => actEthernet_namesCopied hy _ _
    | exact withNumber_holds fun _ => actEthernetDhcp_namesCopied hy _ _
    | exact withNumber_holds fun _ => actWirelessDhcp_namesCopied hy _ _
    | exact withString_holds fun _ => actInclude_namesCopied hy _ _ _
    | exact withNumber_holds fun _ => actGlobal_namesCopied hy _ _
    | exact withString_holds fun _ => actNetwork_namesCopied hy _ _

theorem client_keeps_namesCopied (fs : FileSystem) : (client fs).Keeps NamesCopied where
  lex _ hy := hy
  action n vs _ hy := action_namesCopied fs n vs _ hy
  syntaxError _ hy := hy
  overflow _ hy := hy

/-- In a configuration read into an empty heap every section carries a name. -/
theorem exists_named_of_parseConfig {fs : FileSystem} {fuel : Nat} {filename : CStr}
    {symhead : List Sym} {conf : IfconfigdConf} {g : Globals}
    (h : parseConfig fs fuel filename (.initial symhead) = some (.returned (some conf) g)) :
    ∀ eth ∈ conf.ethernets, ∃ n : CStr, eth.Named n := by
  obtain ⟨file, status, y, -, hrun, -, -, rfl, -⟩ := parseConfig_accepted h
  have hy : NamesCopied y := by
    refine (client_keeps_namesCopied fs).run hrun ?_
    intro e he
    cases he
  intro eth heth
  simp only [IfconfigdConf.ethernets, Heap.read, List.flatMap_map, List.mem_flatMap,
    Heap.network, List.mem_map] at heth
  obtain ⟨_, -, p, -, rfl⟩ := heth
  -- A pointer outside the heap would read as a section with the empty name.
  simp only [Heap.ethernet, Ethernet.Named, List.getD_eq_getElem?_getD]
  cases hp : y.heap.ethers[p]? with
  | none => exact ⟨CStr.lit "", rfl⟩
  | some e => exact hy e (List.mem_of_getElem? hp)

/-! ## The way of a name -/

/-- The message of `ifconfigctl uselan n`. The name is copied into a buffer of 64
bytes, which is sent as it is. -/
def uselan (pid : UInt32) (n : CStr) : Imsg :=
  ⟨⟨ImsgType.useEthernet.code, .ofNat (Imsg.headerSize + Control.maxNetworkNameSize), 0, 0, pid⟩,
    strncpy Control.maxNetworkNameSize n⟩

/-- The message the parent receives for a request of the engine. -/
def forwarded (pid : UInt32) (req : Control.Request) : Imsg :=
  ⟨⟨req.narrow.type, .ofNat (Imsg.headerSize + req.data.length), 0, 0, pid⟩, req.data⟩

/-- What the parent finds behind the payload on the heap and behind the array `name`
on its stack. -/
structure Memory where
  heap : Nat → Byte
  stack : Nat → Byte

/-- The parent, with the heap as given; the outcomes of its actions do not matter
here. -/
def Memory.callees (mem : Memory) : Parent.Callees Unit := ⟨fun _ w => some w, fun _ => mem.heap⟩

/-- The section on which `ifconfigctl uselan n` makes the parent call
`connect_ethernet`: the one `use_ethernet` finds in the first action the parent takes
for the message. -/
def connected (mem : Memory) (pid : UInt32) (conf : IfconfigdConf) (n : CStr) :
    Option (Ethernet StaticCfg) :=
  match Control.controlForward (uselan pid n) with
  | none => none
  | some req =>
      match Parent.actionsOf (Parent.handleImsg mem.callees ⟨(), 0, []⟩ (forwarded pid req)) with
      | (_, .useEthernet name) :: _ => Parent.useEthernet conf (pointer name mem.stack)
      | _ => none

/-- The bytes `use_ethernet` compares with: eight of the name, then the heap up to
the end of the array, then the stack. -/
def arrived (mem : Memory) (n : CStr) : Nat → Byte :=
  pointer (memcpy Parent.maxNetworkNameSize
    (pointer ((strncpy Control.maxNetworkNameSize n).take Control.sizeofImsgData) mem.heap))
    mem.stack

theorem connected_eq (mem : Memory) (pid : UInt32) (conf : IfconfigdConf) (n : CStr) :
    connected mem pid conf n = Parent.useEthernet conf (arrived mem n) := rfl

theorem arrived_eq {mem : Memory} {i : Nat} (n : CStr) (hi : i < Parent.maxNetworkNameSize) :
    arrived mem n i =
      pointer ((strncpy Control.maxNetworkNameSize n).take Control.sizeofImsgData) mem.heap i :=
  pointer_of_getElem? (memcpy_getElem? _ hi)

theorem arrived_of_lt {mem : Memory} {i : Nat} (n : CStr) (hi : i < Control.sizeofImsgData) :
    arrived mem n i = n.bytes.getD i 0 := by
  have hi64 : i < Control.maxNetworkNameSize := Nat.lt_trans hi (by decide)
  rw [arrived_eq n hi64]
  apply pointer_of_getElem?
  rw [List.getElem?_take_of_lt hi, strncpy_getElem? n hi64]

theorem arrived_eight (mem : Memory) (n : CStr) : arrived mem n 8 = mem.heap 0 := by
  rw [arrived_eq n (by decide)]
  have hlen : ((strncpy Control.maxNetworkNameSize n).take Control.sizeofImsgData).length = 8 := by
    rw [List.length_take, strncpy_length]
    rfl
  have hpast := @pointer_past ((strncpy Control.maxNetworkNameSize n).take Control.sizeofImsgData)
    mem.heap 0
  rwa [hlen] at hpast

theorem sees_arrived {n : CStr} (h : n.length ≤ 7) (mem : Memory) :
    Sees nameSize (arrived mem n) n := by
  intro i _ hi
  exact arrived_of_lt n (Nat.lt_of_le_of_lt hi (Nat.lt_succ_of_le h))

/-- Whatever the memory behind the payload holds, the section connected to has the
name that was asked for, exactly when the name has at most seven characters. -/
theorem uselan_selects_iff {fs : FileSystem} {fuel : Nat} {filename : CStr} {symhead : List Sym}
    {conf : IfconfigdConf} {g : Globals}
    (haccepted : parseConfig fs fuel filename (.initial symhead) = some (.returned (some conf) g))
    {eth : Ethernet StaticCfg} (heth : eth ∈ conf.ethernets) {n : CStr} (hname : eth.Named n)
    (pid : UInt32) :
    (∀ mem, ∃ found, connected mem pid conf n = some found ∧ found.Named n) ↔ n.length ≤ 7 := by
  constructor
  · intro h
    by_contra hlong
    -- Put a byte behind the payload that is not the ninth of the name.
    let mem : Memory := ⟨fun _ => n.bytes.getD 8 0 + 1, fun _ => 0⟩
    obtain ⟨found, hfound, hnamed⟩ := h mem
    rw [connected_eq] at hfound
    have hmatch := List.find?_some hfound
    rw [hnamed, strncmpZero_strncpy_iff] at hmatch
    have hbyte := hmatch 8 (by decide) (by omega)
    rw [arrived_eight] at hbyte
    simp [mem] at hbyte
  · intro hshort mem
    have hsees := sees_arrived hshort mem
    rw [connected_eq]
    cases hfind : Parent.useEthernet conf (arrived mem n) with
    | none =>
        have hmiss := List.find?_eq_none.1 hfind eth heth
        rw [hname, strncmpZero_strncpy_iff] at hmiss
        exact absurd hsees hmiss
    | some found =>
        refine ⟨found, rfl, ?_⟩
        obtain ⟨n', hn'⟩ := exists_named_of_parseConfig haccepted found (List.mem_of_find?_eq_some hfind)
        have hmatch := List.find?_some hfind
        rw [hn', strncmpZero_strncpy_iff] at hmatch
        have hlen : n.length < nameSize := Nat.lt_of_le_of_lt hshort (by decide)
        rwa [hsees.eq hmatch hlen] at hn'

/-- A configuration with one ethernet section. -/
def oneSection (name : String) : FileSystem where
  stdin := asciiBytes "network n \x7b\nethernet " ++ asciiBytes name ++ asciiBytes "\n\x7d\n"
  inode _ := none
  uid := 0
  openMax := none

/-- The configuration has a section of that name. -/
def hasSection (name : String) (conf : IfconfigdConf) : Bool :=
  conf.ethernets.any fun eth => eth.Named (CStr.lit name)

theorem exists_of_hasSection {name : String} {conf : IfconfigdConf}
    (h : hasSection name conf = true) : ∃ eth ∈ conf.ethernets, eth.Named (CStr.lit name) := by
  obtain ⟨eth, heth, hname⟩ := List.any_eq_true.1 h
  exact ⟨eth, heth, of_decide_eq_true hname⟩

theorem uselan_selects_iff_lan :
    ∃ conf g, parseConfig (oneSection "lan") 100 (CStr.lit "-") (.initial []) =
        some (.returned (some conf) g) ∧
      ∃ eth ∈ conf.ethernets, eth.Named (CStr.lit "lan") ∧
        ((∀ mem, ∃ found, connected mem 1 conf (CStr.lit "lan") = some found ∧
          found.Named (CStr.lit "lan")) ↔ (CStr.lit "lan").length ≤ 7) := by
  have hparse : acceptedWith (fun conf _ => hasSection "lan" conf)
      (parseConfig (oneSection "lan") 100 (CStr.lit "-") (.initial [])) = true := by
    decide +kernel
  obtain ⟨conf, g, hconf, hsection⟩ := exists_of_acceptedWith hparse
  obtain ⟨eth, heth, hname⟩ := exists_of_hasSection hsection
  exact ⟨conf, g, hconf, eth, heth, hname, uselan_selects_iff hconf heth hname 1⟩

/-- A section called `internal` is not found when a letter follows the payload. -/
theorem uselan_misses_internal :
    ∃ conf g, parseConfig (oneSection "internal") 100 (CStr.lit "-") (.initial []) =
        some (.returned (some conf) g) ∧
      ∃ eth ∈ conf.ethernets, eth.Named (CStr.lit "internal") ∧
        ∃ mem, ¬∃ found, connected mem 1 conf (CStr.lit "internal") = some found ∧
          found.Named (CStr.lit "internal") := by
  have hparse : acceptedWith (fun conf _ => hasSection "internal" conf)
      (parseConfig (oneSection "internal") 100 (CStr.lit "-") (.initial [])) = true := by
    decide +kernel
  obtain ⟨conf, g, hconf, hsection⟩ := exists_of_acceptedWith hparse
  obtain ⟨eth, heth, hname⟩ := exists_of_hasSection hsection
  refine ⟨conf, g, hconf, eth, heth, hname, ⟨fun _ => 120, fun _ => 0⟩, ?_⟩
  rintro ⟨found, hfound, hnamed⟩
  rw [connected_eq] at hfound
  have hmatch := List.find?_some hfound
  rw [hnamed, strncmpZero_strncpy_iff] at hmatch
  have hbyte := hmatch 8 (by decide) (by decide)
  rw [arrived_eight] at hbyte
  revert hbyte
  decide

end Ifconfigd.Selection
