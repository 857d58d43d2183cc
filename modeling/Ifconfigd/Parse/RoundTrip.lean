import Ifconfigd.Parse.Sections

/-!
# Round trip

Parsing a printed configuration gives its meaning back: the sections end up in the heap
in the order they were written, and the lists of the configuration, which grow at their
heads, hold them in the reverse order.
-/

namespace Ifconfigd.Parse

open CLib Yacc

/-! ## What the heap holds -/

/-- A network as its readers see it. -/
abbrev NetTree := Network (Ethernet StaticCfg) (Wireless StaticCfg WpaCfg)

/-- A network with the structures its lists point to. -/
def Heap.tree (h : Heap) (n : Network Nat Nat) : NetTree :=
  ⟨n.name, n.ethernetList.map h.ethernet, n.wirelessList.map h.wireless⟩

/-- All pointers in the heap point to something. -/
structure Heap.Ok (h : Heap) : Prop where
  networks : ∀ n ∈ h.networks, (∀ p ∈ n.ethernetList, p < h.ethers.length) ∧
    ∀ p ∈ n.wirelessList, p < h.wlans.length
  ethers : ∀ e ∈ h.ethers, ∀ p ∈ e.staticopts, p < h.statics.length
  wlans : ∀ w ∈ h.wlans, (∀ p ∈ w.staticopts, p < h.statics.length) ∧
    ∀ p ∈ w.wpa, p < h.wpas.length

/-- The heap holds the networks `nets`, in the order they were read. -/
structure Heap.Holds (h : Heap) (nets : List NetTree) (interval : Int) : Prop where
  ok : h.Ok
  list : h.conf.networkList = (List.range h.networks.length).reverse
  trees : h.networks.map h.tree = nets
  interval : h.conf.upinterval = interval

theorem map_getD_range {α β : Type} (l : List α) (d : α) (f : α → β) :
    (List.range l.length).map (fun i => f (l.getD i d)) = l.map f := by
  apply List.ext_getElem
  · simp
  · intro i h₁ h₂
    simp only [List.length_map, List.length_range] at h₁
    simp [h₁]

theorem Heap.Holds.read {h : Heap} {interval : Int} {nets : List NetTree}
    (hh : h.Holds nets interval) : h.read = ⟨nets.reverse, interval⟩ := by
  have hnets : (List.range h.networks.length).map h.network = h.networks.map h.tree :=
    map_getD_range h.networks Network.zero h.tree
  rw [Heap.read, hh.list, hh.interval, List.map_reverse, hnets, hh.trees]

/-- Structures were only added. -/
structure Heap.Le (h h' : Heap) : Prop where
  ethers : h.ethers <+: h'.ethers
  wlans : h.wlans <+: h'.wlans
  statics : h.statics <+: h'.statics
  wpas : h.wpas <+: h'.wpas

theorem getD_of_le {α : Type} {l l' : List α} (h : l <+: l') {i : Nat} (hi : i < l.length) (d : α) :
    l'.getD i d = l.getD i d := by
  obtain ⟨rest, rfl⟩ := h
  exact List.getD_append l rest d i hi

theorem getD_mem {α : Type} {l : List α} {i : Nat} (hi : i < l.length) (d : α) : l.getD i d ∈ l := by
  rw [List.getD_eq_getElem _ _ hi]
  exact List.getElem_mem hi

section Le

variable {h h' : Heap} (hok : h.Ok) (hle : h.Le h') {p : Nat}

include hok hle

theorem ethernet_of_le (hp : p < h.ethers.length) : h'.ethernet p = h.ethernet p := by
  have hstatic : (h.ethers.getD p Ethernet.zero).staticopts.map h'.static =
      (h.ethers.getD p Ethernet.zero).staticopts.map h.static :=
    Option.map_congr fun q hq => getD_of_le hle.statics (hok.ethers _ (getD_mem hp _) q hq) _
  simp only [Heap.ethernet, getD_of_le hle.ethers hp, hstatic]

theorem wireless_of_le (hp : p < h.wlans.length) : h'.wireless p = h.wireless p := by
  have hw := hok.wlans _ (getD_mem hp Wireless.zero)
  have hstatic : (h.wlans.getD p Wireless.zero).staticopts.map h'.static =
      (h.wlans.getD p Wireless.zero).staticopts.map h.static :=
    Option.map_congr fun q hq => getD_of_le hle.statics (hw.1 q hq) _
  have hwpa : (h.wlans.getD p Wireless.zero).wpa.map h'.wpa =
      (h.wlans.getD p Wireless.zero).wpa.map h.wpa :=
    Option.map_congr fun q hq => getD_of_le hle.wpas (hw.2 q hq) _
  simp only [Heap.wireless, getD_of_le hle.wlans hp, hstatic, hwpa]

theorem tree_of_le {n : Network Nat Nat} (hn : n ∈ h.networks) : h'.tree n = h.tree n := by
  have hp := hok.networks n hn
  simp only [Heap.tree]
  rw [List.map_congr_left fun p hp' => ethernet_of_le hok hle (hp.1 p hp'),
    List.map_congr_left fun p hp' => wireless_of_le hok hle (hp.2 p hp')]

omit hle in
/-- With longer lists of structures all pointers still point to something. -/
theorem ok_of_le (hle : h.Le h')
    (hnetworks : ∀ n ∈ h'.networks, n ∈ h.networks ∨ (∀ p ∈ n.ethernetList, p < h'.ethers.length) ∧
      ∀ p ∈ n.wirelessList, p < h'.wlans.length)
    (hethers : ∀ e ∈ h'.ethers, e ∈ h.ethers ∨ ∀ p ∈ e.staticopts, p < h'.statics.length)
    (hwlans : ∀ w ∈ h'.wlans, w ∈ h.wlans ∨ (∀ p ∈ w.staticopts, p < h'.statics.length) ∧
      ∀ p ∈ w.wpa, p < h'.wpas.length) : h'.Ok where
  networks n hn := by
    rcases hnetworks n hn with hold | hnew
    · have := hok.networks n hold
      exact ⟨fun p hp => (this.1 p hp).trans_le hle.ethers.length_le,
        fun p hp => (this.2 p hp).trans_le hle.wlans.length_le⟩
    · exact hnew
  ethers e he := by
    rcases hethers e he with hold | hnew
    · exact fun p hp => (hok.ethers e hold p hp).trans_le hle.statics.length_le
    · exact hnew
  wlans w hw := by
    rcases hwlans w hw with hold | hnew
    · have := hok.wlans w hold
      exact ⟨fun p hp => (this.1 p hp).trans_le hle.statics.length_le,
        fun p hp => (this.2 p hp).trans_le hle.wpas.length_le⟩
    · exact hnew

end Le

/-! ## Networks -/

/-- Inside a network block: `t` is what was read of the network so far. -/
structure InNetwork (y : Yy) (nets : List NetTree) (t : NetTree) (interval : Int) : Prop where
  holds : y.heap.Holds (nets ++ [t]) interval
  network : y.network = some nets.length

section Sections

variable {y : Yy} {nets : List NetTree} {t : NetTree} {interval : Int}

theorem InNetwork.exists_networks (h : InNetwork y nets t interval) : ∃ ns n,
    y.heap.networks = ns ++ [n] ∧ ns.map y.heap.tree = nets ∧ y.heap.tree n = t ∧
      ns.length = nets.length := by
  obtain ⟨ns, l, hns, hnets, hl⟩ := List.map_eq_append_iff.1 h.holds.trees
  obtain ⟨n, rfl, hn⟩ := List.map_eq_singleton_iff.1 hl
  exact ⟨ns, n, hns, hnets, hn, by rw [← hnets, List.length_map]⟩

theorem getD_concat {α : Type} (l : List α) (x d : α) : (l ++ [x]).getD l.length d = x := by
  simp

/-- A section was added: structures came to the heap, and the current network `n` was
replaced by one that points to them. -/
theorem InNetwork.of_le (h : InNetwork y nets t interval) {y' : Yy} {t' : NetTree}
    {ns : List (Network Nat Nat)} {n n' : Network Nat Nat} (hns : y.heap.networks = ns ++ [n])
    (hnets : ns.map y.heap.tree = nets) (hns' : y'.heap.networks = ns ++ [n'])
    (hle : y.heap.Le y'.heap) (hconf : y'.heap.conf = y.heap.conf) (hnetwork : y'.network = y.network)
    (hlinks : (∀ p ∈ n'.ethernetList, p < y'.heap.ethers.length) ∧
      ∀ p ∈ n'.wirelessList, p < y'.heap.wlans.length)
    (hethers : ∀ e ∈ y'.heap.ethers, e ∈ y.heap.ethers ∨
      ∀ p ∈ e.staticopts, p < y'.heap.statics.length)
    (hwlans : ∀ w ∈ y'.heap.wlans, w ∈ y.heap.wlans ∨
      (∀ p ∈ w.staticopts, p < y'.heap.statics.length) ∧ ∀ p ∈ w.wpa, p < y'.heap.wpas.length)
    (ht' : y'.heap.tree n' = t') : InNetwork y' nets t' interval := by
  have hok := h.holds.ok
  have hok' : y'.heap.Ok := by
    refine ok_of_le hok hle (fun m hm => ?_) hethers hwlans
    rw [hns', List.mem_append, List.mem_singleton] at hm
    rcases hm with hm | rfl
    · exact .inl (by rw [hns]; exact List.mem_append_left _ hm)
    · exact .inr hlinks
  refine ⟨⟨hok', ?_, ?_, ?_⟩, hnetwork.trans h.network⟩
  · rw [hconf, h.holds.list, hns, hns', List.length_append, List.length_append]
    rfl
  · have hold : ns.map y'.heap.tree = ns.map y.heap.tree := by
      refine List.map_congr_left fun m hm => tree_of_le hok hle ?_
      rw [hns]
      exact List.mem_append_left _ hm
    rw [hns', List.map_append, hold, hnets, List.map_singleton, ht']
  · rw [hconf, h.holds.interval]

/-- The pointers of the current network after one section more. -/
theorem InNetwork.links (h : InNetwork y nets t interval) {ns : List (Network Nat Nat)}
    {n : Network Nat Nat} (hns : y.heap.networks = ns ++ [n]) :
    (∀ p ∈ n.ethernetList, p < y.heap.ethers.length) ∧ ∀ p ∈ n.wirelessList, p < y.heap.wlans.length :=
  h.holds.ok.networks n (by rw [hns]; simp)

theorem InNetwork.ether (h : InNetwork y nets t interval) (e : EtherSpec) :
    InNetwork (afterEther (linkEther y nets.length) (e.record y.heap.statics.length) e.static.meaning)
      nets { t with ethernetList := e.meaning :: t.ethernetList } interval := by
  obtain ⟨ns, n, hns, hnets, rfl, hlen⟩ := h.exists_networks
  let y' := afterEther (linkEther y nets.length) (e.record y.heap.statics.length) e.static.meaning
  have hns' : y'.heap.networks =
      ns ++ [{ n with ethernetList := y.heap.ethers.length :: n.ethernetList }] := by
    simp only [y', afterEther, inEther, linkEther, hns, ← hlen, modify_concat]
  have hle : y.heap.Le y'.heap :=
    ⟨⟨_, rfl⟩, ⟨[], List.append_nil _⟩, ⟨_, rfl⟩, ⟨[], List.append_nil _⟩⟩
  have hlinks := h.links hns
  have hstatic : y'.heap.static y.heap.statics.length = e.static.meaning := getD_concat _ _ _
  have hnew : y'.heap.ethernet y.heap.ethers.length = e.meaning := by
    have hrecord : y'.heap.ethers.getD y.heap.ethers.length Ethernet.zero =
        e.record y.heap.statics.length := getD_concat _ _ _
    simp only [Heap.ethernet, hrecord, EtherSpec.record, etherRecord, EtherSpec.meaning]
    split
    · rfl
    · simp [hstatic]
  change InNetwork y' nets _ interval
  refine h.of_le hns hnets hns' hle rfl rfl ?_ ?_ (fun w hw => .inl hw) ?_
  · refine ⟨fun p hp => ?_, hlinks.2⟩
    have hlength : y'.heap.ethers.length = y.heap.ethers.length + 1 := by
      simp [y', afterEther, inEther, linkEther]
    rcases List.mem_cons.1 hp with rfl | hp
    · omega
    · have := hlinks.1 p hp
      omega
  · intro r hr
    rcases List.mem_append.1 hr with hr | hr
    · exact .inl hr
    · right
      rw [List.mem_singleton.1 hr]
      intro p hp
      have hp' : p = y.heap.statics.length := by
        simp only [EtherSpec.record, etherRecord] at hp
        split at hp <;> simp_all
      simp [hp', y', afterEther, inEther, linkEther]
  · simp only [Heap.tree, List.map_cons, hnew]
    rw [List.map_congr_left fun p hp => ethernet_of_le h.holds.ok hle (hlinks.1 p hp),
      List.map_congr_left fun p hp => wireless_of_le h.holds.ok hle (hlinks.2 p hp)]

theorem InNetwork.wlan (h : InNetwork y nets t interval) (w : WlanSpec) :
    InNetwork (afterWlan (linkWlan y nets.length)
      (w.record (y.heap.statics ++ leftBehind w.dhcp).length y.heap.wpas.length)
      (leftBehind w.dhcp) w.static.meaning (w.wpa.elim WpaCfg.zero WpaSpec.meaning))
      nets { t with wirelessList := w.meaning :: t.wirelessList } interval := by
  obtain ⟨ns, n, hns, hnets, rfl, hlen⟩ := h.exists_networks
  let r := w.record (y.heap.statics ++ leftBehind w.dhcp).length y.heap.wpas.length
  let y' := afterWlan (linkWlan y nets.length) r (leftBehind w.dhcp) w.static.meaning
    (w.wpa.elim WpaCfg.zero WpaSpec.meaning)
  have hns' : y'.heap.networks =
      ns ++ [{ n with wirelessList := y.heap.wlans.length :: n.wirelessList }] := by
    simp only [y', afterWlan, inWlan, linkWlan, hns, ← hlen, modify_concat]
  have hle : y.heap.Le y'.heap := by
    refine ⟨⟨[], List.append_nil _⟩, ⟨_, rfl⟩, ⟨leftBehind w.dhcp ++ [w.static.meaning], ?_⟩,
      ⟨_, rfl⟩⟩
    rw [← List.append_assoc]
    rfl
  have hlinks := h.links hns
  have hstatic : y'.heap.static (y.heap.statics ++ leftBehind w.dhcp).length = w.static.meaning :=
    getD_concat _ _ _
  have hwpa : y'.heap.wpa y.heap.wpas.length = w.wpa.elim WpaCfg.zero WpaSpec.meaning :=
    getD_concat _ _ _
  have hnew : y'.heap.wireless y.heap.wlans.length = w.meaning := by
    have hrecord : y'.heap.wlans.getD y.heap.wlans.length Wireless.zero = r := getD_concat _ _ _
    simp only [Heap.wireless, hrecord, r, WlanSpec.record, wlanRecord, WlanSpec.meaning,
      Option.map_some, hstatic, hwpa]
  change InNetwork y' nets _ interval
  refine h.of_le hns hnets hns' hle rfl rfl ?_ (fun e he => .inl he) ?_ ?_
  · refine ⟨hlinks.1, fun p hp => ?_⟩
    have hlength : y'.heap.wlans.length = y.heap.wlans.length + 1 := by
      simp [y', afterWlan, inWlan, linkWlan]
    rcases List.mem_cons.1 hp with rfl | hp
    · omega
    · have := hlinks.2 p hp
      omega
  · intro r' hr'
    rcases List.mem_append.1 hr' with hr' | hr'
    · exact .inl hr'
    · right
      rw [List.mem_singleton.1 hr']
      refine ⟨?_, ?_⟩
      · rintro p hp
        cases hp
        simp [y', afterWlan, inWlan, linkWlan]
      · rintro p hp
        cases hp
        simp [y', afterWlan, inWlan, linkWlan]
  · simp only [Heap.tree, List.map_cons, hnew]
    rw [List.map_congr_left fun p hp => ethernet_of_le h.holds.ok hle (hlinks.1 p hp),
      List.map_congr_left fun p hp => wireless_of_le h.holds.ok hle (hlinks.2 p hp)]

/-- What a network looks like after some more of its sections. -/
def NetTree.add (t : NetTree) (sections : List (EtherSpec ⊕ WlanSpec)) : NetTree where
  name := t.name
  ethernetList := (sections.filterMap Sum.getLeft?).reverse.map EtherSpec.meaning ++ t.ethernetList
  wirelessList := (sections.filterMap Sum.getRight?).reverse.map WlanSpec.meaning ++ t.wirelessList

theorem InNetwork.over_sections (fs : FileSystem) (h : InNetwork y nets t interval)
    (sections : List (EtherSpec ⊕ WlanSpec)) :
    ∃ y', InNetwork y' nets (NetTree.add t sections) interval ∧
      (source fs).Over tables (netEntries.map Entry.place) y
        ((sections.flatMap (Sum.elim EtherSpec.lines WlanSpec.lines)).flatMap Line.tokens) y' := by
  induction sections generalizing y t with
  | nil => exact ⟨y, by simpa [NetTree.add] using h, .refl⟩
  | cons s sections ih =>
      rw [List.flatMap_cons, List.flatMap_append]
      cases s with
      | inl e =>
          obtain ⟨y', hy', hover⟩ := ih (h.ether e)
          refine ⟨y', by simpa [NetTree.add, List.filterMap_cons] using hy', ?_⟩
          exact .trans (over_ether y h.network e) hover
      | inr w =>
          obtain ⟨y', hy', hover⟩ := ih (h.wlan w)
          refine ⟨y', by simpa [NetTree.add, List.filterMap_cons] using hy', ?_⟩
          exact .trans (over_wlan y h.network w) hover

end Sections

section Networks

variable (fs : FileSystem) {y : Yy} {nets : List NetTree} {interval : Int}

/-- The place between the statements of a file. -/
def topLevel : Control := ⟨true, [1]⟩

theorem drive_network :
    drive tables 20 topLevel [.network, .string, lbrace, newline] =
      some (script [] [[], [20], [], []], ⟨false, 26 :: inNetwork⟩) := by
  decide +kernel

theorem drive_networkEnd : ∀ k ∈ netEntries.map Entry.place, ∃ pre ∈ [[9, 8, 24, 9, 23], [9, 8, 23],
    [9, 10, 22]], drive tables 20 k [rbrace, newline] = some (script pre [[21], [6]], topLevel) := by
  decide +kernel

theorem Heap.Holds.network (h : y.heap.Holds nets interval) (name : Text 63) :
    ∃ y', InNetwork y' nets ⟨strncpy nameSize name.str, [], []⟩ interval ∧
      ∀ v vs, action fs 20 (.string name.str :: vs) v y = .ok v y' := by
  have hlen : y.heap.networks.length = nets.length := by rw [← h.trees, List.length_map]
  have hshort : ¬name.str.length > Control.maxNetworkNameSize := by
    have := name.short
    simp only [Control.maxNetworkNameSize]
    omega
  refine ⟨{ y with
    network := some y.heap.networks.length
    heap := { y.heap with
      conf := { y.heap.conf with
        networkList := y.heap.networks.length :: y.heap.conf.networkList }
      networks := y.heap.networks ++ [{ Network.zero with name := strncpy nameSize name.str }] } },
    ⟨⟨⟨?_, h.ok.ethers, h.ok.wlans⟩, ?_, ?_, h.interval⟩, congrArg some hlen⟩, fun v vs => ?_⟩
  · intro n hn
    rcases List.mem_append.1 hn with hn | hn
    · exact h.ok.networks n hn
    · rw [List.mem_singleton.1 hn]
      simp [Network.zero]
  · simp [h.list, List.range_succ]
  · rw [List.map_append, ← h.trees]
    rfl
  · have : action fs 20 (.string name.str :: vs) v y = actNetwork v name.str y := rfl
    rw [this, actNetwork, if_neg hshort]

theorem advances_network (h : y.heap.Holds nets interval) (n : NetSpec) :
    ∃ y', y'.heap.Holds (nets ++ [n.meaning]) interval ∧
      (source fs).Advances tables topLevel y (n.lines.flatMap Line.tokens) topLevel y' := by
  obtain ⟨y₁, hy₁, hopen⟩ := h.network fs n.name
  obtain ⟨y₂, hy₂, hover⟩ := hy₁.over_sections fs n.sections
  have hlines : n.lines.flatMap Line.tokens =
      [(.network, none), (.string, some (.string n.name.str)), (lbrace, none), (newline, none)] ++
        ((n.sections.flatMap (Sum.elim EtherSpec.lines WlanSpec.lines)).flatMap Line.tokens ++
          [(rbrace, none), (newline, none)]) := by
    simp [NetSpec.lines, block, Line.tokens, Lexeme.token, Lexeme.val]
  have hstart : (source fs).Advances tables topLevel y
      [(.network, none), (.string, some (.string n.name.str)), (lbrace, none), (newline, none)]
      ⟨false, 26 :: inNetwork⟩ y₁ :=
    advances_of_script drive_network (by simp) (.cons does_nil (.cons (does_string (by decide) hopen)
      (.cons does_nil (.cons does_nil .nil))))
  obtain ⟨k, hk, hsections⟩ := hover ⟨false, 26 :: inNetwork⟩ (by decide)
  obtain ⟨pre, hpre, hend⟩ := drive_networkEnd k hk
  have hsilent : ∀ pre ∈ [[9, 8, 24, 9, 23], [9, 8, 23], [9, 10, 22]], ∀ n ∈ pre,
      n ∈ silentRules := by decide
  refine ⟨{ y₂ with network := none }, ?_, ?_⟩
  · have hmeaning : NetTree.add ⟨strncpy nameSize n.name.str, [], []⟩ n.sections = n.meaning := by
      simp [NetTree.add, NetSpec.meaning]
    rw [← hmeaning]
    exact hy₂.holds
  · rw [hlines]
    refine hstart.trans (hsections.trans (advances_of_script hend
      (fun n hn => silent_of_mem (hsilent pre hpre n hn)) ?_))
    refine .cons (.blind fun vs => ⟨_, rfl⟩) (.cons (.silent ?_) .nil)
    intro m hm
    rw [List.mem_singleton.1 hm]
    exact silent_of_mem (by decide)

theorem advances_networks (h : y.heap.Holds nets interval) (ns : List NetSpec) :
    ∃ y', y'.heap.Holds (nets ++ ns.map NetSpec.meaning) interval ∧
      (source fs).Advances tables topLevel y ((ns.flatMap NetSpec.lines).flatMap Line.tokens)
        topLevel y' := by
  induction ns generalizing y nets with
  | nil => exact ⟨y, by simpa using h, .refl⟩
  | cons n ns ih =>
      obtain ⟨y₁, hy₁, hadv⟩ := advances_network fs h n
      obtain ⟨y₂, hy₂, hadv'⟩ := ih hy₁
      refine ⟨y₂, by simpa using hy₂, ?_⟩
      rw [List.flatMap_cons, List.flatMap_append]
      exact hadv.trans hadv'

end Networks

/-! ## Printed lines -/

section Printable

/-- Lines that the lexer reads as they were meant. -/
def Printable (ls : List Line) : Prop := ∀ l ∈ ls, l.Printable

theorem Printable.append {ls ls' : List Line} (h : Printable ls) (h' : Printable ls') :
    Printable (ls ++ ls') := by
  intro l hl
  rcases List.mem_append.1 hl with hl | hl
  · exact h l hl
  · exact h' l hl

theorem Printable.flatMap {α : Type} {xs : List α} {f : α → List Line}
    (h : ∀ x ∈ xs, Printable (f x)) : Printable (xs.flatMap f) := by
  intro l hl
  obtain ⟨x, hx, hl⟩ := List.mem_flatMap.1 hl
  exact h x hx l hl

theorem printable_stmt {depth : Nat} {a : Token} {arg : Lexeme} (ha : (Lexeme.keyword a).Printable)
    (harg : arg.Printable) : (stmt depth a arg).Printable := by
  intro x hx
  rcases List.mem_pair.1 hx with rfl | rfl
  · exact ha
  · exact harg

theorem printable_quoted {max : Nat} (t : Text max) (hmax : max ≤ 8000) :
    (Lexeme.quoted t.str).Printable :=
  ⟨t.quotable, t.short.trans hmax⟩

theorem printable_string {max depth : Nat} {a : Token} (o : Option (Text max)) (hmax : max ≤ 8000)
    (ha : (Lexeme.keyword a).Printable) : Printable (stringLines depth a o) := by
  intro l hl
  obtain ⟨t, -, rfl⟩ := Option.map_eq_some_iff.1 (Option.mem_toList.1 hl)
  exact printable_stmt ha (printable_quoted t hmax)

theorem printable_number {depth : Nat} {a : Token} (o : Option CInt)
    (ha : (Lexeme.keyword a).Printable) : Printable (numberLines depth a o) := by
  intro l hl
  obtain ⟨i, -, rfl⟩ := Option.map_eq_some_iff.1 (Option.mem_toList.1 hl)
  exact printable_stmt ha ⟨i.low, i.high⟩

theorem printable_dhcp {depth : Nat} (o : Option Bool) : Printable (dhcpLines depth o) := by
  intro l hl
  obtain ⟨yes, -, rfl⟩ := Option.map_eq_some_iff.1 (Option.mem_toList.1 hl)
  have hyes : (Lexeme.keyword (if yes then .yes else .no)).Printable := by
    cases yes <;> decide
  exact printable_stmt (by decide) hyes

theorem printable_block {depth : Nat} {first : Lexeme} {name : List Lexeme} {body : List Line}
    (hname : ∀ x ∈ first :: name, x.Printable) (hbody : Printable body) :
    Printable (block depth first name body) := by
  intro l hl
  rcases List.mem_cons.1 hl with rfl | hl
  · intro x hx
    rw [← List.cons_append, List.mem_append, List.mem_singleton] at hx
    rcases hx with hx | rfl
    · exact hname x hx
    · trivial
  · rcases List.mem_append.1 hl with hl | hl
    · exact hbody l hl
    · rw [List.mem_singleton.1 hl]
      intro x hx
      rw [List.mem_singleton.1 hx]
      trivial

theorem StaticSpec.printable (s : StaticSpec) : Printable s.lines :=
  .append (printable_string _ (by decide) (by decide))
    (.append (printable_string _ (by decide) (by decide))
      (.append (printable_string _ (by decide) (by decide))
        (printable_string _ (by decide) (by decide))))

theorem EtherSpec.printable (e : EtherSpec) : Printable e.lines := by
  refine printable_block ?_ ?_
  · intro x hx
    rcases List.mem_pair.1 hx with rfl | rfl
    · decide
    · exact printable_quoted e.name (by decide)
  · exact .append (printable_string _ (by decide) (by decide))
      (.append (printable_number _ (by decide)) (.append (printable_dhcp _)
        (.append (printable_string _ (by decide) (by decide)) (.append e.static.printable
          (.append (printable_string _ (by decide) (by decide))
            (printable_string _ (by decide) (by decide)))))))

theorem WpaSpec.printable (w : WpaSpec) : Printable w.lines := by
  refine printable_block ?_ ?_
  · intro x hx
    rw [List.mem_singleton.1 hx]
    decide
  · exact .append (printable_string _ (by decide) (by decide))
      (.append (printable_string _ (by decide) (by decide))
        (.append (printable_string _ (by decide) (by decide))
          (printable_string _ (by decide) (by decide))))

theorem wepLines_printable (key : Option Value) : Printable (wepLines key) := by
  refine printable_block ?_ (printable_string _ (by decide) (by decide))
  intro x hx
  rw [List.mem_singleton.1 hx]
  decide

theorem WlanSpec.printable (w : WlanSpec) : Printable w.lines := by
  refine printable_block ?_ ?_
  · intro x hx
    rcases List.mem_pair.1 hx with rfl | rfl
    · decide
    · exact printable_quoted w.name (by decide)
  · have hstring {max : Nat} {a : Token} {depth : Nat} (hmax : max ≤ 8000)
        (ha : (Lexeme.keyword a).Printable) (o : Option (Text max)) :
        Printable (stringLines depth a o) := printable_string o hmax ha
    have hwpa : Printable (w.wpa.elim [] WpaSpec.lines) := by
      cases w.wpa with
      | none => simp [Printable]
      | some p => exact p.printable
    have hwep : Printable (w.wep.elim [] wepLines) := by
      cases w.wep with
      | none => simp [Printable]
      | some key => exact wepLines_printable key
    exact .append (hstring (by decide) (by decide) _) (.append (printable_number _ (by decide))
      (.append (hstring (by decide) (by decide) _) (.append (hstring (by decide) (by decide) _)
        (.append (printable_number _ (by decide)) (.append (printable_number _ (by decide))
          (.append (printable_dhcp _) (.append (hstring (by decide) (by decide) _)
            (.append w.static.printable (.append hwpa (.append hwep
              (.append (hstring (by decide) (by decide) _)
                (hstring (by decide) (by decide) _))))))))))))

theorem NetSpec.printable (n : NetSpec) : Printable n.lines := by
  refine printable_block ?_ (.flatMap fun s _ => ?_)
  · intro x hx
    rcases List.mem_pair.1 hx with rfl | rfl
    · decide
    · exact printable_quoted n.name (by decide)
  · cases s with
    | inl e => exact e.printable
    | inr w => exact w.printable

theorem ConfSpec.printable (c : ConfSpec) : Printable c.lines := by
  intro l hl
  rcases List.mem_cons.1 hl with rfl | hl
  · exact printable_stmt (by decide) ⟨c.interval.low, c.interval.high⟩
  · exact Printable.flatMap (fun n _ => n.printable) l hl

end Printable

/-! ## Whole files -/

theorem drive_start : drive tables 20 ⟨false, []⟩ [.updateinterval, .number, newline] =
    some (script [1] [[], [19], [4]], topLevel) := by
  decide +kernel

/-- The parser gets over a printed configuration and has its meaning in the heap. -/
theorem advances_conf (fs : FileSystem) (c : ConfSpec) {y : Yy} (hy : y.heap = Heap.empty) :
    ∃ y', y'.heap.Holds (c.networks.map NetSpec.meaning) c.interval.val ∧
      (source fs).Advances tables ⟨false, []⟩ y (c.lines.flatMap Line.tokens) topLevel y' := by
  have hinterval : Does tables (act fs) (some (.number c.interval.val)) [19] y
      { y with heap := { y.heap with conf := { y.heap.conf with upinterval := c.interval.val } } } := by
    refine does_number (by decide) fun v vs => ?_
    have : action fs 19 (.number c.interval.val :: vs) v y = actGlobal v c.interval.val y := rfl
    rw [this, actGlobal, if_neg (by have := c.long; simp only [minUpdateInterval]; omega), toInt_val]
  have hholds : ({ y.heap with conf := { y.heap.conf with upinterval := c.interval.val } } : Heap).Holds
      [] c.interval.val := by
    rw [hy]
    exact ⟨⟨by simp [Heap.empty], by simp [Heap.empty], by simp [Heap.empty]⟩, rfl, rfl, rfl⟩
  obtain ⟨y', hy', hadv⟩ := advances_networks fs (y := { y with
    heap := { y.heap with conf := { y.heap.conf with upinterval := c.interval.val } } }) hholds c.networks
  refine ⟨y', hy', ?_⟩
  rw [ConfSpec.lines, List.flatMap_cons]
  refine .trans (advances_of_script drive_start ?_ ?_) hadv
  · intro n hn
    rw [List.mem_singleton.1 hn]
    exact silent_of_mem (by decide)
  · refine .cons does_nil (.cons hinterval (.cons (.silent ?_) .nil))
    intro n hn
    rw [List.mem_singleton.1 hn]
    exact silent_of_mem (by decide)

/-- Parsing a printed configuration gives its meaning back. -/
theorem parse_print (fs : FileSystem) (symhead : List Sym) (c : ConfSpec) {filename : CStr}
    {file : File} (hfile : pushfile fs [] filename false = some file)
    (htext : file.rest = c.print) :
    ∃ fuel g, parseConfig fs fuel filename (Globals.initial symhead) =
      some (.returned (some c.meaning) g) := by
  let y := (Globals.initial symhead).start file
  have hlexes : Lexes y.lex (c.lines.flatMap Line.tokens ++ [(.char 0, none)]) :=
    lexes_lines c.printable ⟨rfl, rfl, pushfile_errors hfile, htext, Nat.zero_le _⟩
  obtain ⟨s, hs, hadv⟩ := advances_conf fs c (y := y.withLex noLex) rfl
  obtain ⟨q, hq, hat⟩ := hadv (.initial y) [(.char 0, none)]
    ⟨rfl, [], rfl, rfl, rfl, rfl, .inl ⟨rfl, hlexes⟩⟩
  obtain ⟨r, z, hr, hdone, hsem, herrors⟩ := hat.accept (t := tables)
  obtain ⟨fuel, hrun⟩ := run_of_reaches (hq.trans hr) hdone
  refine ⟨fuel, ?_⟩
  have hheap : z.heap = s.heap := by
    rw [← hsem]
    rfl
  have hread : z.heap.read = c.meaning := by
    rw [hheap, hs.read, ConfSpec.meaning, List.map_reverse]
  have hclean : z.lex.file.errors = 0 := herrors
  have hparse : parseConfig fs fuel filename (Globals.initial symhead) = some (finish z) := by
    have hfile' : pushfile fs (Globals.initial symhead).files filename false = some file := hfile
    rw [parseConfig, hfile']
    simp only [y] at hrun
    simp only [hrun]
  rw [hparse, finish, if_neg (not_not.2 hclean), hread]
  exact ⟨_, rfl⟩

/-- A configuration with one ethernet section. -/
def homeSpec : ConfSpec where
  interval := ⟨40, by decide, by decide⟩
  networks := [⟨⟨CStr.lit "home", by decide +kernel, by decide⟩,
    [.inl ⟨⟨CStr.lit "lan", by decide +kernel, by decide⟩,
      some ⟨CStr.lit "em0", by decide +kernel, by decide⟩, none,
      some true, none, .none, none, none, fun _ => rfl⟩]⟩]
  long := by decide

theorem parse_print_home : ∃ fuel g,
    parseConfig ⟨homeSpec.print, fun _ => none, 0, none⟩ fuel (CStr.lit "-") (Globals.initial []) =
      some (.returned (some homeSpec.meaning) g) :=
  parse_print ⟨homeSpec.print, fun _ => none, 0, none⟩ [] homeSpec rfl rfl

end Ifconfigd.Parse
