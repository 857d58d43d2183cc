import Ifconfigd.Parse.Notes
import Ifconfigd.Parse.RoundTrip
import Ifconfigd.Selection

/-!
# Looking an ethernet section up

`use_ethernet` walks the networks and their ethernet sections and returns what
`connect_ethernet` returns for the first section with the name. Behind the loops there
is no `return`: for a name that no section has, the caller finds whatever the register
of the return value holds.

Networks and sections are inserted at the heads of their lists, so a walk meets the
sections in the reverse of the order in which their headers were read.
-/

namespace Ifconfigd.Parent

open CLib Yacc Parse

/-! ## The order of the sections -/

/-- The names in the headers of ethernet sections, as they are read. -/
def headerNote (n : Nat) (vs : List Val) (_ : Yy) : List CStr :=
  match n, vs with
  | 27, .string name :: _ => [name]
  | _, _ => []

/-- The lists are linked as head insertion leaves them: the networks and, over all
networks, the ethernet sections are met in the reverse of their order on the heap, and
`network` points to the last network. -/
structure Stacked (names : List CStr) (y : Yy) : Prop where
  networks : y.heap.conf.networkList = (List.range y.heap.networks.length).reverse
  current : ∀ p, y.network = some p → p + 1 = y.heap.networks.length
  ethers : y.heap.networks.reverse.flatMap Network.ethernetList =
    (List.range y.heap.ethers.length).reverse
  names : y.heap.ethers.map Ethernet.name = names.map (strncpy nameSize)

/-- From `y` to `z` no network or ethernet section was added. -/
structure Unmoved (y z : Yy) : Prop where
  networks : z.heap.conf.networkList = y.heap.conf.networkList
  current : z.network = y.network ∨ z.network = none
  ethers : z.heap.networks.map Network.ethernetList = y.heap.networks.map Network.ethernetList
  names : z.heap.ethers.map Ethernet.name = y.heap.ethers.map Ethernet.name

theorem Unmoved.refl (y : Yy) : Unmoved y y := ⟨rfl, .inl rfl, rfl, rfl⟩

theorem Stacked.unmoved {names : List CStr} {y z : Yy} (h : Stacked names y)
    (hz : Unmoved y z) : Stacked names z := by
  have hnetworks : z.heap.networks.length = y.heap.networks.length := by
    simpa only [List.length_map] using congrArg List.length hz.ethers
  have hethers : z.heap.ethers.length = y.heap.ethers.length := by
    simpa only [List.length_map] using congrArg List.length hz.names
  refine ⟨?_, ?_, ?_, hz.names.trans h.names⟩
  · rw [hz.networks, hnetworks, h.networks]
  · intro p hp
    rw [hnetworks]
    rcases hz.current with hcur | hcur
    · exact h.current p (hcur ▸ hp)
    · rw [hcur] at hp
      cases hp
  · rw [hethers, ← h.ethers, List.flatMap_def, List.flatMap_def, List.map_reverse,
      List.map_reverse, hz.ethers]

section Actions

variable {y : Yy} {v : Val}

theorem setEther_unmoved {f : Ethernet Nat → Ethernet Nat} (hf : ∀ e, (f e).name = e.name) :
    (setEther v f y).Holds (Unmoved y) :=
  withPtr_holds fun p => ⟨rfl, .inl rfl, rfl, map_modify_of_eq hf _ p⟩

theorem actEthernetDhcp_unmoved (yes : Int) : (actEthernetDhcp v yes y).Holds (Unmoved y) := by
  simp only [actEthernetDhcp]
  split
  · apply withPtr_holds
    intro p
    split
    all_goals
      refine ⟨rfl, .inl rfl, rfl, ?_⟩
      apply map_modify_of_eq
      exact fun _ => rfl
  · exact setEther_unmoved fun _ => rfl

theorem actWirelessDhcp_unmoved (yes : Int) : (actWirelessDhcp v yes y).Holds (Unmoved y) := by
  simp only [actWirelessDhcp]
  split <;> exact withPtr_holds fun _ => ⟨rfl, .inl rfl, rfl, rfl⟩

theorem actInclude_unmoved (fs : FileSystem) (name : CStr) :
    (actInclude fs v name y).Holds (Unmoved y) := by
  simp only [actInclude]
  split <;> exact ⟨rfl, .inl rfl, rfl, rfl⟩

theorem actGlobal_unmoved (n : Int) : (actGlobal v n y).Holds (Unmoved y) := by
  simp only [actGlobal]
  split <;> exact ⟨rfl, .inl rfl, rfl, rfl⟩

theorem actWireless_unmoved (name : CStr) : (actWireless v name y).Holds (Unmoved y) := by
  apply withPtr_holds
  intro p
  refine ⟨rfl, .inl rfl, ?_, rfl⟩
  apply map_modify_of_eq
  exact fun _ => rfl

/-- Only the headers of networks and ethernet sections add to the lists. -/
theorem action_unmoved (fs : FileSystem) {n : Nat} (hn : n ∉ [20, 27]) (vs : List Val) :
    (action fs n vs v y).Holds (Unmoved y) := by
  unfold action
  split
  all_goals first
    | exact absurd (by decide) hn
    | exact ⟨rfl, .inl rfl, rfl, rfl⟩
    | exact ⟨rfl, .inr rfl, rfl, rfl⟩
    | exact withString_holds fun _ => withPtr_holds fun _ => ⟨rfl, .inl rfl, rfl, rfl⟩
    | exact withNumber_holds fun _ => withPtr_holds fun _ => ⟨rfl, .inl rfl, rfl, rfl⟩
    | exact withString_holds fun _ => withString_holds fun _ => ⟨rfl, .inl rfl, rfl, rfl⟩
    | exact withString_holds fun _ => setEther_unmoved fun _ => rfl
    | exact withNumber_holds fun _ => setEther_unmoved fun _ => rfl
    | exact withNumber_holds fun _ => actEthernetDhcp_unmoved _
    | exact withNumber_holds fun _ => actWirelessDhcp_unmoved _
    | exact withString_holds fun _ => actInclude_unmoved _ _
    | exact withNumber_holds fun _ => actGlobal_unmoved _
    | exact withString_holds fun _ => actWireless_unmoved _

/-- A new network goes to the head of the list. -/
theorem Stacked.network {names : List CStr} (h : Stacked names y) {name : CStr} {v' : Val} {z : Yy}
    (hz : actNetwork v name y = .ok v' z) : Stacked names z := by
  simp only [actNetwork] at hz
  split at hz
  · cases hz
  · cases hz
    constructor
    · simp [h.networks, List.range_succ]
    · simp
    · simpa [Network.zero] using h.ethers
    · exact h.names

/-- A new section goes to the head of the list of the last network. -/
theorem Stacked.ethernet {names : List CStr} (h : Stacked names y) {name : CStr} {v' : Val}
    {z : Yy} (hz : actEthernet v name y = .ok v' z) : Stacked (names ++ [name]) z := by
  simp only [actEthernet, withPtr] at hz
  split at hz
  · next p hp =>
      cases hz
      have hlast := h.current p hp
      obtain ⟨ns, n, hns⟩ : ∃ ns n, y.heap.networks = ns ++ [n] := by
        rcases List.eq_nil_or_concat' y.heap.networks with hnil | hconcat
        · rw [hnil] at hlast
          cases hlast
        · exact hconcat
      have hpos : p = ns.length := by simpa [hns] using hlast
      have hethers := h.ethers
      rw [hns, List.reverse_concat, List.flatMap_cons] at hethers
      constructor
      · simpa using h.networks
      · intro p' hp'
        simpa using h.current p' hp'
      · simp [hns, hpos, modify_concat, List.range_succ, ← hethers]
      · simp [h.names]
  · cases hz

end Actions

/-- What the headers say about the lists at the end of a run. -/
theorem stacked_of_notedIn {fs : FileSystem} {filename : CStr} {symhead : List Sym}
    {names : List CStr} {q : State Token Val Yy}
    (h : NotedIn fs headerNote filename (.initial symhead) names q) : Stacked names q.client := by
  refine h.holds ?_ ?_ ?_
  · exact fun _ => ⟨rfl, nofun, rfl, rfl⟩
  · exact fun _ _ _ h => h.unmoved ⟨rfl, .inl rfl, rfl, rfl⟩
  · intro names n vs y v z h hz
    by_cases hn : n ∈ [20, 27]
    · rw [List.mem_pair] at hn
      rcases hn with rfl | rfl
      · simp only [action, withString] at hz
        split at hz
        · simpa [headerNote] using h.network hz
        · cases hz
      · simp only [action, withString] at hz
        split at hz
        · next name hname =>
            obtain ⟨vs', rfl⟩ : ∃ vs', vs = .string name :: vs' := by
              cases vs with
              | nil => cases hname
              | cons w vs' =>
                  cases hname
                  exact ⟨vs', rfl⟩
            exact h.ethernet hz
        · cases hz
    · have hunmoved := action_unmoved (y := y) (v := defaultVal n vs) fs hn vs
      rw [hz] at hunmoved
      have hnote : headerNote n vs y = [] := by
        simp only [headerNote]
        split
        · simp at hn
        · rfl
      rw [hnote, List.append_nil]
      exact h.unmoved hunmoved

/-- The names of the sections, in the order a walk meets them. -/
theorem Stacked.names_read {names : List CStr} {y : Yy} (h : Stacked names y) :
    y.heap.read.ethernets.map Ethernet.name = (names.map (strncpy nameSize)).reverse := by
  have hlists : (List.range y.heap.networks.length).reverse.map
      (fun p => (y.heap.networks.getD p Network.zero).ethernetList) =
      y.heap.networks.reverse.map Network.ethernetList := by
    rw [List.map_reverse, List.map_reverse, map_getD_range]
  have hnames : (List.range y.heap.ethers.length).reverse.map
      (fun p => (y.heap.ethernet p).name) = (y.heap.ethers.map Ethernet.name).reverse := by
    rw [List.map_reverse]
    exact congrArg List.reverse (map_getD_range y.heap.ethers Ethernet.zero Ethernet.name)
  calc y.heap.read.ethernets.map Ethernet.name
      = ((List.range y.heap.networks.length).reverse.flatMap
          fun p => (y.heap.networks.getD p Network.zero).ethernetList).map
            fun p => (y.heap.ethernet p).name := by
        simp only [IfconfigdConf.ethernets, Heap.read, h.networks, Heap.network,
          List.flatMap_map, List.map_flatMap, List.map_map]
        rfl
    _ = (y.heap.networks.reverse.flatMap Network.ethernetList).map
          fun p => (y.heap.ethernet p).name := by
        rw [List.flatMap_def, hlists, ← List.flatMap_def]
    _ = (names.map (strncpy nameSize)).reverse := by
        rw [h.ethers, hnames, h.names]

/-! ## The lookup -/

/-- `use_ethernet` with what it calls and returns. `connect_ethernet` may not return;
`stray` is what the register of the return value holds behind the loops. -/
def useEthernetReturn (conf : IfconfigdConf) (connect : Ethernet StaticCfg → Option Int)
    (stray : Int) (name : Nat → Byte) : List (Ethernet StaticCfg) × Option Int :=
  match useEthernet conf name with
  | some eth => ([eth], connect eth)
  | none => ([], some stray)

/-- What a lookup of the name `n` promises, with `names` the names in the headers of the
file. -/
structure LookupContract (conf : IfconfigdConf) (names : List CStr) (n : CStr)
    (connect : Ethernet StaticCfg → Option Int)
    (run : List (Ethernet StaticCfg) × Option Int) : Prop where
  /-- The sections are met from the one written last to the one written first. -/
  order : conf.ethernets.map Ethernet.name = (names.map (strncpy nameSize)).reverse
  /-- The first section with the name is the only one connected to. -/
  found : ∀ before eth after, conf.ethernets = before ++ eth :: after → eth.Named n →
    (∀ e ∈ before, ¬e.Named n) → run = ([eth], connect eth)
  missing : (∀ eth ∈ conf.ethernets, ¬eth.Named n) → run = ([], some (-1))

/-- A pointer to the string `n`. -/
def PointsTo (p : Nat → Byte) (n : CStr) : Prop := ∀ i ≤ n.length, p i = n.bytes.getD i 0

theorem PointsTo.sees {p : Nat → Byte} {n : CStr} (h : PointsTo p n) : Sees nameSize p n :=
  fun i _ hi => h i hi

/-- The comparison of `use_ethernet` decides whether a section has the name. -/
theorem strncmpZero_iff_named {p : Nat → Byte} {n : CStr} (h : PointsTo p n)
    {eth : Ethernet StaticCfg} (heth : ∃ m : CStr, eth.Named m) :
    strncmpZero nameSize (pointer eth.name fun _ => 0) p = true ↔ eth.Named n := by
  obtain ⟨m, hm⟩ := heth
  rw [hm, strncmpZero_strncpy_iff, sees_iff_strncpy_eq h.sees, Ethernet.Named, hm]

section Lookup

variable {fs : FileSystem} {fuel : Nat} {filename : CStr} {symhead : List Sym}
  {conf : IfconfigdConf} {g : Globals} {n : CStr} {p : Nat → Byte}

/-- A section with the name is met: the first one is found. -/
theorem useEthernet_of_first
    (haccepted : parseConfig fs fuel filename (.initial symhead) = some (.returned (some conf) g))
    (hp : PointsTo p n) {before after : List (Ethernet StaticCfg)} {eth : Ethernet StaticCfg}
    (hconf : conf.ethernets = before ++ eth :: after) (heth : eth.Named n)
    (hbefore : ∀ e ∈ before, ¬e.Named n) : useEthernet conf p = some eth := by
  have hnamed := Selection.exists_named_of_parseConfig haccepted
  rw [hconf] at hnamed
  rw [useEthernet, hconf, List.find?_append, List.find?_eq_none.2, Option.none_or,
    List.find?_cons_of_pos]
  · exact (strncmpZero_iff_named hp (hnamed eth (by simp))).2 heth
  · intro e he hmatch
    exact hbefore e he ((strncmpZero_iff_named hp (hnamed e (by simp [he]))).1 hmatch)

/-- No section has the name: none is found. -/
theorem useEthernet_of_missing
    (haccepted : parseConfig fs fuel filename (.initial symhead) = some (.returned (some conf) g))
    (hp : PointsTo p n) (hmissing : ∀ eth ∈ conf.ethernets, ¬eth.Named n) :
    useEthernet conf p = none := by
  have hnamed := Selection.exists_named_of_parseConfig haccepted
  refine List.find?_eq_none.2 fun e he hmatch => ?_
  exact hmissing e he ((strncmpZero_iff_named hp (hnamed e he)).1 hmatch)

/-- For every configuration read from a file and every name, `use_ethernet` keeps its
contract exactly if a section has the name or the register of the return value happens
to hold -1. -/
theorem useEthernet_contract_iff
    (haccepted : parseConfig fs fuel filename (.initial symhead) = some (.returned (some conf) g))
    {names : List CStr} {q : State Token Val Yy}
    (hnames : NotedIn fs headerNote filename (.initial symhead) names q) (hp : PointsTo p n)
    (connect : Ethernet StaticCfg → Option Int) (stray : Int) :
    LookupContract conf names n connect (useEthernetReturn conf connect stray p) ↔
      (∃ eth ∈ conf.ethernets, eth.Named n) ∨ stray = -1 := by
  constructor
  · intro h
    by_cases hsome : ∃ eth ∈ conf.ethernets, eth.Named n
    · exact .inl hsome
    · have hmissing : ∀ eth ∈ conf.ethernets, ¬eth.Named n := fun eth heth hname =>
        hsome ⟨eth, heth, hname⟩
      have hrun := h.missing hmissing
      rw [useEthernetReturn, useEthernet_of_missing haccepted hp hmissing] at hrun
      cases hrun
      exact .inr rfl
  · intro h
    refine ⟨?_, ?_, ?_⟩
    · rw [hnames.read haccepted]
      exact (stacked_of_notedIn hnames).names_read
    · intro before eth after hconf heth hbefore
      rw [useEthernetReturn, useEthernet_of_first haccepted hp hconf heth hbefore]
    · intro hmissing
      rw [useEthernetReturn, useEthernet_of_missing haccepted hp hmissing]
      rcases h with ⟨eth, heth, hname⟩ | rfl
      · exact absurd hname (hmissing eth heth)
      · rfl

end Lookup

/-- A pointer to a string with zeros behind it. -/
theorem pointsTo_getD (n : CStr) : PointsTo (fun i => n.bytes.getD i 0) n := fun _ _ => rfl

theorem useEthernet_contract_iff_lan :
    ∃ conf g names q,
      parseConfig (Selection.oneSection "lan") 100 (CStr.lit "-") (.initial []) =
        some (.returned (some conf) g) ∧
      NotedIn (Selection.oneSection "lan") headerNote (CStr.lit "-") (.initial []) names q ∧
      LookupContract conf names (CStr.lit "lan") (fun _ => none)
        (useEthernetReturn conf (fun _ => none) 0 fun i => (CStr.lit "lan").bytes.getD i 0) := by
  have hparse : acceptedWith (fun conf _ => Selection.hasSection "lan" conf)
      (parseConfig (Selection.oneSection "lan") 100 (CStr.lit "-") (.initial [])) = true := by
    decide +kernel
  obtain ⟨conf, g, hconf, hsection⟩ := exists_of_acceptedWith hparse
  obtain ⟨names, q, hnames⟩ := exists_notedIn headerNote hconf
  exact ⟨conf, g, names, q, hconf, hnames,
    (useEthernet_contract_iff hconf hnames (pointsTo_getD _) _ 0).2
      (.inl (Selection.exists_of_hasSection hsection))⟩

/-- The name `wan` is not in the configuration: nothing is connected to, and the caller
sees a success. -/
theorem useEthernet_of_unknown_name :
    ∃ conf g, parseConfig (Selection.oneSection "lan") 100 (CStr.lit "-") (.initial []) =
        some (.returned (some conf) g) ∧
      (∀ eth ∈ conf.ethernets, ¬eth.Named (CStr.lit "wan")) ∧
      useEthernetReturn conf (fun _ => none) 0 (fun i => (CStr.lit "wan").bytes.getD i 0) =
        ([], some 0) := by
  have hparse : acceptedWith
      (fun conf _ => conf.ethernets.all fun eth => !decide (eth.Named (CStr.lit "wan")))
      (parseConfig (Selection.oneSection "lan") 100 (CStr.lit "-") (.initial [])) = true := by
    decide +kernel
  obtain ⟨conf, g, hconf, hother⟩ := exists_of_acceptedWith hparse
  have hmissing : ∀ eth ∈ conf.ethernets, ¬eth.Named (CStr.lit "wan") := by
    intro eth heth
    simpa using List.all_eq_true.1 hother eth heth
  refine ⟨conf, g, hconf, hmissing, ?_⟩
  rw [useEthernetReturn, useEthernet_of_missing hconf (pointsTo_getD _) hmissing]

end Ifconfigd.Parent
