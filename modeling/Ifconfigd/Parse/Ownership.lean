import Ifconfigd.Lib.Yacc.Trace
import Ifconfigd.Parse.Written

/-!
# The shape of the heap

The configuration is built in a heap and read as a tree. The reading loses nothing: each
section hangs in the list of one network, and no two sections point to the same static
record or the same WPA record, so that an option given in one section is seen in that
section only.

An ethernet section can get its static record back, by `dhcp no` after `dhcp yes`. That no
other section has got it in the meantime is a matter of the section the parser is in.
-/

namespace Ifconfigd.Parse

open CLib Yacc

/-! ## What the actions do to the heap -/

/-- Pointers are kept or set to null. -/
structure PtrsKept (y z : Yy) : Prop where
  network : z.network = y.network ∨ z.network = none
  ether : z.ether = y.ether ∨ z.ether = none
  wlan : z.wlan = y.wlan ∨ z.wlan = none
  wpa : z.wpa = y.wpa ∨ z.wpa = none
  staticonfig : z.staticonfig = y.staticonfig ∨ z.staticonfig = none

theorem PtrsKept.of_same {y z : Yy} (network : z.network = y.network) (ether : z.ether = y.ether)
    (wlan : z.wlan = y.wlan) (wpa : z.wpa = y.wpa) (staticonfig : z.staticonfig = y.staticonfig) :
    PtrsKept y z :=
  ⟨.inl network, .inl ether, .inl wlan, .inl wpa, .inl staticonfig⟩

/-- What the action of a rule does to the structures and to the pointers. -/
inductive HeapEffect (n : Nat) (y : Yy) : Yy → Prop
  | quiet {z : Yy} (hheap : z.heap = { y.heap with conf := z.heap.conf })
      (hlist : z.heap.conf.networkList = y.heap.conf.networkList) (hptrs : PtrsKept y z) :
      HeapEffect n y z
  | network (x : Network Nat Nat) (hethers : x.ethernetList = []) (hwlans : x.wirelessList = []) :
      HeapEffect n y { y with
        network := some y.heap.networks.length
        heap := { y.heap with
          conf := { y.heap.conf with
            networkList := y.heap.networks.length :: y.heap.conf.networkList }
          networks := y.heap.networks ++ [x] } }
  | ethernet {p : Nat} (hn : n = 27) (hp : y.network = some p) (x : Ethernet Nat)
      (hx : x.staticopts = some y.heap.statics.length) (c : StaticCfg) :
      HeapEffect n y { y with
        ether := some y.heap.ethers.length
        staticonfig := some y.heap.statics.length
        heap := { y.heap with
          networks := y.heap.networks.modify p fun m =>
            { m with ethernetList := y.heap.ethers.length :: m.ethernetList }
          ethers := y.heap.ethers ++ [x]
          statics := y.heap.statics ++ [c] } }
  | wireless {p : Nat} (hp : y.network = some p) (x : Wireless Nat Nat)
      (hx : x.staticopts = some y.heap.statics.length) (c : StaticCfg) (w : WpaCfg) :
      HeapEffect n y { y with
        wlan := some y.heap.wlans.length
        staticonfig := some y.heap.statics.length
        wpa := some y.heap.wpas.length
        heap := { y.heap with
          networks := y.heap.networks.modify p fun m =>
            { m with wirelessList := y.heap.wlans.length :: m.wirelessList }
          wlans := y.heap.wlans ++ [x]
          statics := y.heap.statics ++ [c]
          wpas := y.heap.wpas ++ [w] } }
  | setEther {p : Nat} (hn : n ∈ ethernetRules) (hp : y.ether = some p)
      (f : Ethernet Nat → Ethernet Nat) (hf : ∀ x, (f x).staticopts = x.staticopts) :
      HeapEffect n y { y with heap := { y.heap with ethers := y.heap.ethers.modify p f } }
  -- `dhcp` in an ethernet section; the last case is for a null pointer `staticonfig`
  | etherDhcp {p : Nat} (hn : n = 37) (hp : y.ether = some p) (f : Ethernet Nat → Ethernet Nat)
      (s : Option Nat) (hf : ∀ x, (f x).staticopts = s) (hs : s = none ∨ s = y.staticonfig) :
      HeapEffect n y { y with heap := { y.heap with ethers := y.heap.ethers.modify p f } }
  | etherNew {p : Nat} (hn : n = 37) (hp : y.ether = some p) (f : Ethernet Nat → Ethernet Nat)
      (hf : ∀ x, (f x).staticopts = some y.heap.statics.length) (c : StaticCfg) :
      HeapEffect n y { y with
        staticonfig := some y.heap.statics.length
        heap := { y.heap with
          ethers := y.heap.ethers.modify p f
          statics := y.heap.statics ++ [c] } }
  | setWlan {p : Nat} (hn : n ∈ wirelessRules) (hp : y.wlan = some p)
      (f : Wireless Nat Nat → Wireless Nat Nat) (hf : ∀ x, (f x).staticopts = x.staticopts) :
      HeapEffect n y { y with heap := { y.heap with wlans := y.heap.wlans.modify p f } }
  | wlanNew {p : Nat} (hn : n = 56) (hp : y.wlan = some p)
      (f : Wireless Nat Nat → Wireless Nat Nat)
      (hf : ∀ x, (f x).staticopts = some y.heap.statics.length) (c : StaticCfg) :
      HeapEffect n y { y with
        staticonfig := some y.heap.statics.length
        heap := { y.heap with
          wlans := y.heap.wlans.modify p f
          statics := y.heap.statics ++ [c] } }
  | setWpa {p : Nat} (hn : n ∈ wirelessRules) (hp : y.wpa = some p) (f : WpaCfg → WpaCfg) :
      HeapEffect n y { y with heap := { y.heap with wpas := y.heap.wpas.modify p f } }
  | setStatic {p : Nat} (hn : n ∈ staticRules) (hp : y.staticonfig = some p)
      (f : StaticCfg → StaticCfg) :
      HeapEffect n y { y with heap := { y.heap with statics := y.heap.statics.modify p f } }

section HeapEffect

variable {n : Nat} {y : Yy} {v : Val}

theorem HeapEffect.of_same {z : Yy} (hheap : z.heap = y.heap) (network : z.network = y.network)
    (ether : z.ether = y.ether) (wlan : z.wlan = y.wlan) (wpa : z.wpa = y.wpa)
    (staticonfig : z.staticonfig = y.staticonfig) : HeapEffect n y z := by
  refine .quiet ?_ ?_ (.of_same network ether wlan wpa staticonfig)
  · rw [hheap]
  · rw [hheap]

/-- An action that follows a pointer. -/
theorem withPtr_holds_of {P : Yy → Prop} {p : Option Nat} {k : Nat → Outcome Val Yy}
    (h : ∀ i, p = some i → (k i).Holds P) : (withPtr p k).Holds P := by
  cases p with
  | none => trivial
  | some i => exact h i rfl

theorem actInclude_heapEffect (fs : FileSystem) (name : CStr) :
    (actInclude fs v name y).Holds (HeapEffect n y) := by
  rw [actInclude]
  split <;> exact .of_same rfl rfl rfl rfl rfl rfl

theorem actGlobal_heapEffect (m : Int) : (actGlobal v m y).Holds (HeapEffect n y) := by
  rw [actGlobal]
  split
  · exact .of_same rfl rfl rfl rfl rfl rfl
  · exact .quiet rfl rfl (.of_same rfl rfl rfl rfl rfl)

theorem actNetwork_heapEffect (name : CStr) : (actNetwork v name y).Holds (HeapEffect n y) := by
  rw [actNetwork]
  split
  · exact .of_same rfl rfl rfl rfl rfl rfl
  · exact .network _ rfl rfl

theorem actEthernetDhcp_heapEffect (yes : Int) :
    (actEthernetDhcp v yes y).Holds (HeapEffect 37 y) := by
  simp only [actEthernetDhcp]
  split
  · split
    · exact withPtr_holds_of fun p hp =>
        HeapEffect.etherNew (y := y) rfl hp _ (fun _ => rfl) StaticCfg.zero
    · exact withPtr_holds_of fun p hp => .etherDhcp rfl hp _ _ (fun _ => rfl) (.inr rfl)
  · exact withPtr_holds_of fun p hp => .etherDhcp rfl hp _ _ (fun _ => rfl) (.inl rfl)

theorem actWirelessDhcp_heapEffect (yes : Int) :
    (actWirelessDhcp v yes y).Holds (HeapEffect 56 y) := by
  simp only [actWirelessDhcp]
  split
  · exact withPtr_holds_of fun p hp =>
      HeapEffect.wlanNew (y := y) rfl hp _ (fun _ => rfl) StaticCfg.zero
  · exact withPtr_holds_of fun p hp => .setWlan (by decide) hp _ fun _ => rfl

theorem action_heapEffect (fs : FileSystem) (n : Nat) (vs : List Val) (v : Val) (y : Yy) :
    (action fs n vs v y).Holds (HeapEffect n y) := by
  unfold action
  split
  all_goals first
    | exact .of_same rfl rfl rfl rfl rfl rfl
    | exact .quiet rfl rfl ⟨.inr rfl, .inl rfl, .inl rfl, .inl rfl, .inl rfl⟩
    | exact .quiet rfl rfl ⟨.inl rfl, .inr rfl, .inl rfl, .inl rfl, .inr rfl⟩
    | exact .quiet rfl rfl ⟨.inl rfl, .inr rfl, .inr rfl, .inl rfl, .inl rfl⟩
    | exact withString_holds fun _ => withString_holds fun _ => .of_same rfl rfl rfl rfl rfl rfl
    | exact withString_holds fun _ => withPtr_holds_of fun _ hp =>
        .setEther (by decide) hp _ fun _ => rfl
    | exact withNumber_holds fun _ => withPtr_holds_of fun _ hp =>
        .setEther (by decide) hp _ fun _ => rfl
    | exact withString_holds fun _ => withPtr_holds_of fun _ hp =>
        .setWlan (by decide) hp _ fun _ => rfl
    | exact withNumber_holds fun _ => withPtr_holds_of fun _ hp =>
        .setWlan (by decide) hp _ fun _ => rfl
    | exact withString_holds fun _ => withPtr_holds_of fun _ hp => .setWpa (by decide) hp _
    | exact withString_holds fun _ => withPtr_holds_of fun _ hp => .setStatic (by decide) hp _
    | exact withString_holds fun _ => withPtr_holds_of fun _ hp => .ethernet rfl hp _ rfl _
    | exact withString_holds fun _ => withPtr_holds_of fun _ hp => .wireless hp _ rfl _ _
    | exact withString_holds fun _ => actInclude_heapEffect fs _
    | exact withNumber_holds fun _ => actGlobal_heapEffect _
    | exact withString_holds fun _ => actNetwork_heapEffect _
    | exact withNumber_holds fun _ => actEthernetDhcp_heapEffect _
    | exact withNumber_holds fun _ => actWirelessDhcp_heapEffect _

end HeapEffect

/-! ## Static records -/

/-- An ethernet or a wireless section of the heap. -/
inductive Sect
  | ether (p : Nat)
  | wlan (p : Nat)
  deriving DecidableEq

/-- The static record a section points to. -/
def Heap.staticOf (h : Heap) : Sect → Option Nat
  | .ether p => h.ethers[p]?.bind fun x => x.staticopts
  | .wlan p => h.wlans[p]?.bind fun x => x.staticopts

section Links

variable {A : Type} {l : List A} {g : A → Option Nat} {f : A → A} {p : Nat}

theorem link_modify_of_same (hf : ∀ x, g (f x) = g x) (q : Nat) :
    (l.modify p f)[q]?.bind g = l[q]?.bind g := by
  rw [List.getElem?_modify]
  cases l[q]? with
  | none => rfl
  | some x =>
      change g (if p = q then f x else x) = g x
      split
      · exact hf x
      · rfl

theorem link_modify (hp : p < l.length) {s : Option Nat} (hf : ∀ x, g (f x) = s) (q : Nat) :
    (l.modify p f)[q]?.bind g = if q = p then s else l[q]?.bind g := by
  rw [List.getElem?_modify]
  by_cases hq : q = p
  · subst hq
    simp [List.getElem?_eq_getElem hp, hf]
  · simp [hq, Ne.symm hq]

theorem getElem?_append_of_ne {q : Nat} (x : A) (hq : q ≠ l.length) : (l ++ [x])[q]? = l[q]? := by
  rcases Nat.lt_or_gt_of_ne hq with hlt | hgt
  · rw [List.getElem?_append_left hlt]
  · have hlen : (l ++ [x]).length ≤ q := by
      rw [List.length_append]
      exact hgt
    rw [List.getElem?_eq_none hlen, List.getElem?_eq_none (Nat.le_of_lt hgt)]

theorem link_append (x : A) (q : Nat) :
    (l ++ [x])[q]?.bind g = if q = l.length then g x else l[q]?.bind g := by
  split
  · next hq =>
      subst hq
      rw [List.getElem?_concat_length, Option.bind_some]
  · next hq => rw [getElem?_append_of_ne x hq]

end Links

section StaticOf

variable {h h' : Heap} {p : Nat} {s : Option Nat}

theorem staticOf_ext (hethers : ∀ q, h'.staticOf (.ether q) = h.staticOf (.ether q))
    (hwlans : ∀ q, h'.staticOf (.wlan q) = h.staticOf (.wlan q)) : h'.staticOf = h.staticOf := by
  funext a
  cases a with
  | ether q => exact hethers q
  | wlan q => exact hwlans q

theorem staticOf_update_ether
    (hethers : ∀ q, h'.staticOf (.ether q) = if q = p then s else h.staticOf (.ether q))
    (hwlans : ∀ q, h'.staticOf (.wlan q) = h.staticOf (.wlan q)) :
    h'.staticOf = Function.update h.staticOf (.ether p) s := by
  funext a
  cases a with
  | ether q =>
      rw [hethers, Function.update_apply]
      simp only [Sect.ether.injEq]
  | wlan q =>
      rw [hwlans, Function.update_of_ne]
      intro heq
      cases heq

theorem staticOf_update_wlan (hethers : ∀ q, h'.staticOf (.ether q) = h.staticOf (.ether q))
    (hwlans : ∀ q, h'.staticOf (.wlan q) = if q = p then s else h.staticOf (.wlan q)) :
    h'.staticOf = Function.update h.staticOf (.wlan p) s := by
  funext a
  cases a with
  | ether q =>
      rw [hethers, Function.update_of_ne]
      intro heq
      cases heq
  | wlan q =>
      rw [hwlans, Function.update_apply]
      simp only [Sect.wlan.injEq]

end StaticOf

/-! ## Pointers to allocated structures -/

/-- The pointers, and those of the sections to their static records, are to structures
that have been allocated. -/
structure Allocated (y : Yy) : Prop where
  network : ∀ p, y.network = some p → p < y.heap.networks.length
  ether : ∀ p, y.ether = some p → p < y.heap.ethers.length
  wlan : ∀ p, y.wlan = some p → p < y.heap.wlans.length
  wpa : ∀ p, y.wpa = some p → p < y.heap.wpas.length
  staticonfig : ∀ s, y.staticonfig = some s → s < y.heap.statics.length
  statics : ∀ a s, y.heap.staticOf a = some s → s < y.heap.statics.length

/-- How an action changes which static records the sections have. -/
inductive StaticEffect (n : Nat) (y z : Yy) : Prop
  | kept (hof : z.heap.staticOf = y.heap.staticOf)
      (hlen : z.heap.statics.length = y.heap.statics.length)
  | fresh (a : Sect)
      (hof : z.heap.staticOf = Function.update y.heap.staticOf a (some y.heap.statics.length))
      (hlen : z.heap.statics.length = y.heap.statics.length + 1)
  | dhcp {p : Nat} (hn : n = 37) (hp : y.ether = some p) (s : Option Nat)
      (hs : s = none ∨ s = y.staticonfig)
      (hof : z.heap.staticOf = Function.update y.heap.staticOf (.ether p) s)
      (hlen : z.heap.statics.length = y.heap.statics.length)

section Allocated

variable {n : Nat} {y z : Yy}

theorem HeapEffect.staticEffect (h : HeapEffect n y z) (hy : Allocated y) :
    StaticEffect n y z := by
  cases h with
  | quiet hheap =>
      refine .kept ?_ ?_
      · rw [hheap]
        exact staticOf_ext (fun _ => rfl) fun _ => rfl
      · rw [hheap]
  | network => exact .kept (staticOf_ext (fun _ => rfl) fun _ => rfl) rfl
  | ethernet _ _ x hx =>
      refine .fresh (.ether y.heap.ethers.length) ?_ List.length_append
      rw [← hx]
      exact staticOf_update_ether (link_append x) fun _ => rfl
  | wireless _ x hx =>
      refine .fresh (.wlan y.heap.wlans.length) ?_ List.length_append
      rw [← hx]
      exact staticOf_update_wlan (fun _ => rfl) (link_append x)
  | setEther _ _ f hf => exact .kept (staticOf_ext (link_modify_of_same hf) fun _ => rfl) rfl
  | etherDhcp hn hp f s hf hs =>
      refine .dhcp hn hp s hs ?_ rfl
      exact staticOf_update_ether (link_modify (hy.ether _ hp) hf) fun _ => rfl
  | @etherNew p _ hp f hf =>
      refine .fresh (.ether p) ?_ List.length_append
      exact staticOf_update_ether (link_modify (hy.ether _ hp) hf) fun _ => rfl
  | setWlan _ _ f hf =>
      exact .kept (staticOf_ext (fun _ => rfl) (link_modify_of_same hf)) rfl
  | @wlanNew p _ hp f hf =>
      refine .fresh (.wlan p) ?_ List.length_append
      exact staticOf_update_wlan (fun _ => rfl) (link_modify (hy.wlan _ hp) hf)
  | setWpa => exact .kept (staticOf_ext (fun _ => rfl) fun _ => rfl) rfl
  | setStatic =>
      refine .kept (staticOf_ext (fun _ => rfl) fun _ => rfl) ?_
      exact List.length_modify _ _ _

theorem HeapEffect.allocated (h : HeapEffect n y z) (hy : Allocated y) : Allocated z := by
  have hstatics : ∀ a s, z.heap.staticOf a = some s → s < z.heap.statics.length := by
    cases h.staticEffect hy with
    | kept hof hlen =>
        rw [hof, hlen]
        exact hy.statics
    | fresh a hof hlen =>
        intro b s hs
        rw [hof, Function.update_apply] at hs
        split at hs
        · cases hs
          omega
        · have hlt := hy.statics b s hs
          omega
    | dhcp hn hp s hs hof hlen =>
        intro b t ht
        rw [hof, Function.update_apply] at ht
        rw [hlen]
        split at ht
        · rcases hs with rfl | rfl
          · cases ht
          · exact hy.staticonfig t ht
        · exact hy.statics b t ht
  cases h with
  | quiet hheap hlist hptrs =>
      have hkept : ∀ {p q : Option Nat} {m : Nat}, q = p ∨ q = none → (∀ i, p = some i → i < m) →
          ∀ i, q = some i → i < m := by
        rintro p q m (rfl | rfl) hp i hi
        · exact hp i hi
        · cases hi
      refine ⟨?_, ?_, ?_, ?_, ?_, hstatics⟩ <;> rw [hheap]
      · exact hkept hptrs.network hy.network
      · exact hkept hptrs.ether hy.ether
      · exact hkept hptrs.wlan hy.wlan
      · exact hkept hptrs.wpa hy.wpa
      · exact hkept hptrs.staticonfig hy.staticonfig
  | network x =>
      refine ⟨?_, hy.ether, hy.wlan, hy.wpa, hy.staticonfig, hstatics⟩
      rintro p ⟨⟩
      simp
  | ethernet hn hp x hx c =>
      refine ⟨?_, ?_, hy.wlan, hy.wpa, ?_, hstatics⟩
      · simpa using hy.network
      · rintro p ⟨⟩
        simp
      · rintro s ⟨⟩
        simp
  | wireless hp x hx c w =>
      refine ⟨?_, hy.ether, ?_, ?_, ?_, hstatics⟩
      · simpa using hy.network
      · rintro p ⟨⟩
        simp
      · rintro p ⟨⟩
        simp
      · rintro s ⟨⟩
        simp
  | setEther | etherDhcp =>
      refine ⟨hy.network, ?_, hy.wlan, hy.wpa, hy.staticonfig, hstatics⟩
      simpa using hy.ether
  | etherNew =>
      refine ⟨hy.network, ?_, hy.wlan, hy.wpa, ?_, hstatics⟩
      · simpa using hy.ether
      · rintro s ⟨⟩
        simp
  | setWlan =>
      refine ⟨hy.network, hy.ether, ?_, hy.wpa, hy.staticonfig, hstatics⟩
      simpa using hy.wlan
  | wlanNew =>
      refine ⟨hy.network, hy.ether, ?_, hy.wpa, ?_, hstatics⟩
      · simpa using hy.wlan
      · rintro s ⟨⟩
        simp
  | setWpa =>
      refine ⟨hy.network, hy.ether, hy.wlan, ?_, hy.staticonfig, hstatics⟩
      simpa using hy.wpa
  | setStatic =>
      refine ⟨hy.network, hy.ether, hy.wlan, hy.wpa, ?_, hstatics⟩
      simpa using hy.staticonfig

end Allocated

/-! ## Lists -/

section Lists

variable {A : Type} {l : List A} {f : A → A} {g : A → List Nat} {p : Nat}

theorem flatMap_modify_of_same (hf : ∀ x, g (f x) = g x) :
    (l.modify p f).flatMap g = l.flatMap g := by
  induction l generalizing p with
  | nil => rw [List.modify_nil]
  | cons x l ih =>
      cases p with
      | zero => rw [List.modify_zero_cons, List.flatMap_cons, List.flatMap_cons, hf]
      | succ p => rw [List.modify_succ_cons, List.flatMap_cons, List.flatMap_cons, ih]

/-- One list is lengthened. -/
theorem flatMap_modify_perm (hp : p < l.length) {i : Nat} (hf : ∀ x, g (f x) = i :: g x) :
    ((l.modify p f).flatMap g).Perm (i :: l.flatMap g) := by
  induction l generalizing p with
  | nil => exact absurd hp (Nat.not_lt_zero p)
  | cons x l ih =>
      cases p with
      | zero =>
          rw [List.modify_zero_cons, List.flatMap_cons, List.flatMap_cons, hf]
          exact .refl _
      | succ p =>
          rw [List.modify_succ_cons, List.flatMap_cons, List.flatMap_cons]
          have hrest := ih (Nat.lt_of_succ_lt_succ hp)
          exact (hrest.append_left (g x)).trans List.perm_middle

theorem cons_range_perm {l : List Nat} {m : Nat} (h : l.Perm (List.range m)) :
    (m :: l).Perm (List.range (m + 1)) := by
  rw [List.range_succ]
  exact (h.cons m).trans (List.perm_append_singleton m (List.range m)).symm

end Lists

/-- Every section is in the list of one network, once, and every network since the
`first` one is in the list of the configuration, once. -/
structure Linked (first : Nat) (h : Heap) : Prop where
  networks : ∃ k, h.networks.length = first + k ∧
    h.conf.networkList = (List.range' first k).reverse
  ethers : (h.networks.flatMap fun m => m.ethernetList).Perm (List.range h.ethers.length)
  wlans : (h.networks.flatMap fun m => m.wirelessList).Perm (List.range h.wlans.length)

section Linked

variable {n first : Nat} {y z : Yy}

theorem HeapEffect.linked (h : HeapEffect n y z) (hy : Allocated y) (hl : Linked first y.heap) :
    Linked first z.heap := by
  cases h with
  | quiet hheap hlist hptrs =>
      rw [hheap]
      constructor
      · rw [hlist]
        exact hl.networks
      · exact hl.ethers
      · exact hl.wlans
  | network x hethers hwlans =>
      obtain ⟨k, hlen, hlist⟩ := hl.networks
      constructor
      · refine ⟨k + 1, ?_, ?_⟩
        · rw [List.length_append, hlen]
          rfl
        · rw [hlen, hlist, List.range'_concat, List.reverse_append, Nat.one_mul]
          rfl
      · simpa [hethers] using hl.ethers
      · simpa [hwlans] using hl.wlans
  | ethernet hn hp x hx c =>
      constructor
      · simpa using hl.networks
      · have hperm := flatMap_modify_perm (hy.network _ hp) (g := fun m => m.ethernetList)
          (f := fun m => { m with ethernetList := y.heap.ethers.length :: m.ethernetList })
          fun _ => rfl
        have hrange := hperm.trans (cons_range_perm hl.ethers)
        rwa [List.length_append]
      · refine (List.Perm.of_eq (flatMap_modify_of_same ?_)).trans hl.wlans
        exact fun _ => rfl
  | wireless hp x hx c w =>
      constructor
      · simpa using hl.networks
      · refine (List.Perm.of_eq (flatMap_modify_of_same ?_)).trans hl.ethers
        exact fun _ => rfl
      · have hperm := flatMap_modify_perm (hy.network _ hp) (g := fun m => m.wirelessList)
          (f := fun m => { m with wirelessList := y.heap.wlans.length :: m.wirelessList })
          fun _ => rfl
        have hrange := hperm.trans (cons_range_perm hl.wlans)
        rwa [List.length_append]
  | setEther | etherDhcp | etherNew | setWlan | wlanNew | setWpa | setStatic =>
      constructor
      · exact hl.networks
      · simpa using hl.ethers
      · simpa using hl.wlans

end Linked

/-! ## The static record of an ethernet section -/

theorem Allocated.withLex {y : Yy} (h : Allocated y) (l : Lex) : Allocated (y.withLex l) :=
  ⟨h.network, h.ether, h.wlan, h.wpa, h.staticonfig, h.statics⟩

/-- Between the header of an ethernet section, which left `x`, and a later `y` inside it:
the section and its static record are the current ones, and only the section has got hold
of the record since. -/
def Holding (x y : Yy) : Prop :=
  Allocated x → Allocated y ∧ ∃ p s, x.ether = some p ∧ x.staticonfig = some s ∧
    y.ether = some p ∧ y.staticonfig = some s ∧
    ∀ b, y.heap.staticOf b = some s → b = .ether p ∨ x.heap.staticOf b = some s

theorem Holding.action {fs : FileSystem} {n : Nat} (hn : n ∉ [20, 21, 27, 28, 42, 43, 56])
    {vs : List Val} {v : Val} {x y z : Yy} (h : Holding x y)
    (hact : action fs n vs (defaultVal n vs) y = .ok v z) : Holding x z := by
  intro hx
  obtain ⟨hy, p, s, hxp, hxs, hyp, hys, hheld⟩ := h hx
  have heffect := action_heapEffect fs n vs (defaultVal n vs) y
  have hkept := action_kept fs hn vs (defaultVal n vs) y
  rw [hact] at heffect hkept
  refine ⟨heffect.allocated hy, p, s, hxp, hxs, hkept.ether.trans hyp, hkept.staticonfig s hys, ?_⟩
  intro b hb
  cases heffect.staticEffect hy with
  | kept hof _ =>
      rw [hof] at hb
      exact hheld b hb
  | fresh a hof _ =>
      rw [hof, Function.update_apply] at hb
      split at hb
      · cases hb
        exact absurd (hy.staticonfig _ hys) (Nat.lt_irrefl _)
      · exact hheld b hb
  | dhcp _ hp t _ hof _ =>
      cases hyp.symm.trans hp
      rw [hof, Function.update_apply] at hb
      split at hb
      · next heq => exact .inl heq
      · exact hheld b hb

theorem holdsScope (fs : FileSystem) :
    Scope tables (client fs) Edge (· = ethernetMark) 27 Holding := by
  have hmark : ethernetMark ∈ marks.map Prod.fst := by decide
  have hlex : ∀ x y l, Holding x y → Holding x (y.withLex l) := by
    intro x y l h hx
    obtain ⟨hy, hheld⟩ := h hx
    exact ⟨hy.withLex l, hheld⟩
  constructor
  · decide
  · exact fun st a st' => mark_ne_shift hmark
  · exact fun st st' => mark_ne_shiftError hmark
  · exact fun n st => @rule_of_mark _ n st 27 .ethernetAction (by decide)
  · exact fun stack rest st hpath hpop =>
      no_mark_after_error (o := (ethernetMark, [20, 21, 27, 28, 42, 43, 56])) hpath hpop (by decide)
  · intro vs x v y hact hy
    refine ⟨hy, ?_⟩
    change action fs 27 vs _ x = _ at hact
    simp only [action, withString, actEthernet, withPtr] at hact
    split at hact
    · split at hact
      · cases hact
        exact ⟨_, _, rfl, rfl, rfl, rfl, fun b hb => .inr hb⟩
      · cases hact
    · cases hact
  · exact fun x y h => hlex x y _ h
  · exact fun x y h => hlex x y _ h
  · intro n vs x y z h hact
    obtain ⟨l, rfl⟩ := action_onlyReports fs n vs _ z hact
    exact hlex x y l h
  · intro stack n x y v z hpath hred hmark' h hact
    exact h.action (not_mem_outside (o := (ethernetMark, [20, 21, 27, 28, 42, 43, 56])) hpath hred
      (by decide) hmark') hact

/-! ## Runs -/

/-- No two sections have the same static record. -/
def Unshared (h : Heap) : Prop :=
  ∀ a b s, h.staticOf a = some s → h.staticOf b = some s → a = b

theorem unshared_of_update {h h' : Heap} (hu : Unshared h) {a : Sect} {t : Option Nat}
    (hof : h'.staticOf = Function.update h.staticOf a t)
    (ht : ∀ b s, t = some s → h.staticOf b = some s → b = a) : Unshared h' := by
  intro b c s hb hc
  rw [hof, Function.update_apply] at hb hc
  split at hb <;> split at hc
  · next hba hca => exact hba.trans hca.symm
  · next hba hca => exact absurd (ht c s hb hc) hca
  · next hba hca => exact absurd (ht b s hc hb) hba
  · exact hu b c s hb hc

/-- The heap of a parser as a tree: pointers are to allocated structures, each section is in
one list, and the records of a section are its own. -/
structure Tree (first : Nat) (y : Yy) : Prop where
  allocated : Allocated y
  linked : Linked first y.heap
  statics : Unshared y.heap
  wpas : WpaPaired y

section Tree

variable {fs : FileSystem} {y₀ : Yy} {q q' : State Token Val Yy} {n first : Nat}

theorem Tree.withLex {y : Yy} (h : Tree first y) (l : Lex) : Tree first (y.withLex l) :=
  ⟨h.allocated.withLex l, h.linked, h.statics, h.wpas.length, h.wpas.own⟩

theorem keeps_allocated (fs : FileSystem) : (client fs).Keeps Allocated where
  lex _ h := h.withLex _
  action n vs y h := (action_heapEffect fs n vs _ y).mono fun _ hz => hz.allocated h
  syntaxError _ h := h.withLex _
  overflow _ h := h.withLex _

theorem Allocated.reaches (h : Allocated y₀) (hreach : Reaches tables (client fs) (.initial y₀) q) :
    Allocated q.client := by
  refine hreach.invariant (P := fun p => Allocated p.client) ?_ h
  intro p p' hp hstep
  have hnext := (keeps_allocated fs).step (t := tables) hp
  rwa [hstep] at hnext

/-- The header of an ethernet section allocates its static record. -/
theorem actEthernet_fresh (v : Val) (name : CStr) (y : Yy) :
    (actEthernet v name y).Holds fun z =>
      z.ether = some y.heap.ethers.length ∧ z.staticonfig = some y.heap.statics.length ∧
        z.heap.staticOf =
          Function.update y.heap.staticOf (.ether y.heap.ethers.length)
            (some y.heap.statics.length) :=
  withPtr_holds fun _ => ⟨rfl, rfl, staticOf_update_ether (link_append _) fun _ => rfl⟩

theorem header_owns (fs : FileSystem) {vs : List Val} {v w : Val} {x y : Yy} (hx : Allocated x)
    (hact : action fs 27 vs v x = .ok w y) {p s : Nat} (hp : y.ether = some p)
    (hs : y.staticonfig = some s) (b : Sect) (hb : y.heap.staticOf b = some s) :
    b = .ether p := by
  have hfresh := @withString_holds _ vs 0 _ fun name => actEthernet_fresh v name x
  rw [show withString vs 0 _ = _ from hact] at hfresh
  obtain ⟨hether, hstatic, hof⟩ := hfresh
  cases hp.symm.trans hether
  cases hs.symm.trans hstatic
  rw [hof, Function.update_apply] at hb
  split at hb
  · next heq => exact heq
  · exact absurd (hx.statics b _ hb) (Nat.lt_irrefl _)

/-- In an ethernet section, the current static record is no other section's. -/
theorem Holding.owner (h : Allocated y₀) {r : State Token Val Yy}
    (hsection : InSection (client fs) (.initial y₀) 27 r q) (hholds : Holding r.client q.client) :
    ∃ p s, r.client.ether = some p ∧ q.client.ether = some p ∧ q.client.staticonfig = some s ∧
      ∀ b, q.client.heap.staticOf b = some s → b = .ether p := by
  obtain ⟨⟨q₀, v, hq₀, -, hact, -⟩, -⟩ := hsection
  have halloc := h.reaches hq₀
  have hr := (keeps_allocated fs).action 27 (q₀.stack.map Prod.snd) q₀.client halloc
  rw [hact] at hr
  obtain ⟨-, p, s, hrp, hrs, hqp, hqs, hheld⟩ := hholds hr
  refine ⟨p, s, hrp, hqp, hqs, fun b hb => ?_⟩
  rcases hheld b hb with heq | hold
  · exact heq
  · exact header_owns fs halloc hact hrp hrs b hold

theorem Tree.action (h₀ : Allocated y₀) (hreach : Reaches tables (client fs) (.initial y₀) q)
    (h : Tree first q.client) (hred : Reducing tables q n) {v : Val} {z : Yy}
    (hact : (client fs).action n (q.stack.map Prod.snd) q.client = .ok v z) : Tree first z := by
  have heffect := action_heapEffect fs n (q.stack.map Prod.snd)
    (defaultVal n (q.stack.map Prod.snd)) q.client
  have hpaired := (keeps_paired fs).action n (q.stack.map Prod.snd) q.client h.wpas
  rw [hact] at hpaired
  rw [show Parse.action fs n _ _ q.client = _ from hact] at heffect
  refine ⟨heffect.allocated h.allocated, heffect.linked h.allocated h.linked, ?_, hpaired⟩
  cases heffect.staticEffect h.allocated with
  | kept hof _ =>
      intro a b s ha hb
      rw [hof] at ha hb
      exact h.statics a b s ha hb
  | fresh a hof _ =>
      refine unshared_of_update h.statics hof fun b s hs hb => ?_
      cases hs
      exact absurd (h.allocated.statics b _ hb) (Nat.lt_irrefl _)
  | dhcp hn hp t ht hof _ =>
      refine unshared_of_update h.statics hof fun b s hs hb => ?_
      have hmarked := options_marked
      simp only [Bool.and_eq_true] at hmarked
      obtain ⟨r, hsection, hholds⟩ := inSection_of_marked (holdsScope fs) hmarked.1.1.1 hreach hred
        (by rw [hn]; decide)
      obtain ⟨p, s', -, hqp, hqs, howner⟩ := hholds.owner h₀ hsection
      cases hqp.symm.trans hp
      rcases ht with rfl | rfl
      · cases hs
      · cases hqs.symm.trans hs
        exact howner b hb

theorem Tree.erring (h : Tree first q.client) {z : Yy} (herr : Erring tables (client fs) q z) :
    Tree first z := by
  cases herr with
  | action hred hact =>
      obtain ⟨l, rfl⟩ := action_onlyReports fs _ _ _ z hact
      exact h.withLex l
  | token =>
      split
      · exact h.withLex _
      · exact h

theorem Tree.step (h₀ : Allocated y₀) (hreach : Reaches tables (client fs) (.initial y₀) q)
    (h : Tree first q.client) (hstep : step tables (client fs) q = .run q') :
    Tree first q'.client := by
  cases step_effect hstep with
  | fetch => exact h.withLex _
  | resume | shift => exact h
  | goal hred hact | reduce hred hact => exact h.action h₀ hreach hred hact
  | recover herr | discard herr => exact h.erring herr

theorem Tree.done (h₀ : Allocated y₀) (hreach : Reaches tables (client fs) (.initial y₀) q)
    (h : Tree first q.client) {status : Status} {z : Yy}
    (hdone : Yacc.step tables (client fs) q = .done status z) : Tree first z := by
  cases step_finish hdone with
  | same => exact h
  | error herr => exact h.erring herr
  | overflow hpushing =>
      cases hpushing with
      | shift => exact h.withLex _
      | reduce hred hact => exact (h.action h₀ hreach hred hact).withLex _
      | error herr => exact (h.erring herr).withLex _

theorem Tree.reaches (h : Tree first y₀) (hreach : Reaches tables (client fs) (.initial y₀) q) :
    Tree first q.client := by
  induction hreach with
  | refl => exact h
  | tail hq hstep ih => exact ih.step h.allocated hq hstep

end Tree

/-! ## Calls of `parse_config` -/

/-- A new list of networks is begun. -/
theorem Tree.start {first : Nat} {g : Globals} (h : Tree first g.yy) (file : File) :
    Tree g.yy.heap.networks.length (g.start file) where
  allocated := ⟨h.allocated.network, h.allocated.ether, h.allocated.wlan, h.allocated.wpa,
    h.allocated.staticonfig, h.allocated.statics⟩
  linked := ⟨⟨0, rfl, rfl⟩, h.linked.ethers, h.linked.wlans⟩
  statics := h.statics
  wpas := ⟨h.wpas.length, h.wpas.own⟩

theorem Parsed.tree {g : Globals} (h : Parsed g) : ∃ first, Tree first g.yy := by
  induction h with
  | initial symhead =>
      refine ⟨0, ?_, ⟨⟨0, rfl, rfl⟩, .refl _, .refl _⟩, ?_, (Parsed.initial symhead).paired⟩
      · constructor
        · rintro p ⟨⟩
        · rintro p ⟨⟩
        · rintro p ⟨⟩
        · rintro p ⟨⟩
        · rintro p ⟨⟩
        · rintro (p | p) s ⟨⟩
      · rintro (p | p) b s ⟨⟩
  | @call _ _ _ g g' _ hg hparse ih =>
      obtain ⟨first, htree⟩ := ih
      rcases parseConfig_returned hparse with rfl | ⟨file, q, status, y, -, hreach, hdone, hyy⟩
      · exact ⟨first, htree⟩
      · have hstart := htree.start file
        have hy := (hstart.reaches hreach).done hstart.allocated hreach hdone
        refine ⟨g.yy.heap.networks.length, ?_⟩
        rw [hyy]
        exact hy.withLex _

/-- In every state of a parse, whatever was parsed before: the structures make up a tree. -/
theorem heap_is_tree {fs : FileSystem} {g : Globals} (hg : Parsed g) (file : File)
    {q : State Token Val Yy} (hreach : Reaches tables (client fs) (.initial (g.start file)) q) :
    Tree g.yy.heap.networks.length q.client := by
  obtain ⟨first, htree⟩ := hg.tree
  exact (htree.start file).reaches hreach

/-- A network with a section of each kind. -/
def sideBySide : FileSystem where
  stdin := asciiBytes "network n \x7b\nethernet a \x7b\ndhcp yes\ndhcp no\n\x7d\n" ++
    asciiBytes "wireless b \x7b\ninet c\n\x7d\n\x7d\n"
  inode _ := none
  uid := 0
  openMax := none

def sideBySideFile : File := ⟨CStr.lit "stdin", sideBySide.stdin, 1, 0⟩

/-- The action that stores `inet` succeeds here. -/
def inetStored (q : State Token Val Yy) : Bool :=
  match (client sideBySide).action 87 (q.stack.map Prod.snd) q.client with
  | .ok _ _ => true
  | _ => false

/-- The state before `inet` is stored. -/
theorem exists_sideBySide :
    ∃ q, Reaches tables (client sideBySide)
        (.initial ((Globals.initial []).start sideBySideFile)) q ∧
      Reducing tables q 87 ∧ q.client.heap.staticOf (.ether 0) = some 0 ∧
      q.client.heap.staticOf (.wlan 0) = some 1 ∧
      ∃ v z, (client sideBySide).action 87 (q.stack.map Prod.snd) q.client = .ok v z := by
  have hread : (steps tables (client sideBySide) 73
      (.initial ((Globals.initial []).start sideBySideFile))).any (fun q =>
        nextRule tables q = some 87 && q.client.heap.staticOf (.ether 0) = some 0 &&
          q.client.heap.staticOf (.wlan 0) = some 1 &&
          inetStored q) = true := by
    decide +kernel
  obtain ⟨q, hq, htest⟩ := (Option.any_eq_true _ _).1 hread
  simp only [Bool.and_eq_true, decide_eq_true_eq] at htest
  obtain ⟨⟨⟨hrule, hether⟩, hwlan⟩, hok⟩ := htest
  refine ⟨q, reaches_of_steps hq, nextRule_eq_some_iff.1 hrule, hether, hwlan, ?_⟩
  unfold inetStored at hok
  split at hok
  · next v z hact => exact ⟨v, z, hact⟩
  · cases hok

theorem heap_is_tree_sideBySide :
    ∃ q, Reaches tables (client sideBySide)
        (.initial ((Globals.initial []).start sideBySideFile)) q ∧
      q.client.heap.staticOf (.ether 0) = some 0 ∧ q.client.heap.staticOf (.wlan 0) = some 1 ∧
      Tree 0 q.client := by
  obtain ⟨q, hreach, -, hether, hwlan, -⟩ := exists_sideBySide
  exact ⟨q, hreach, hether, hwlan, heap_is_tree (.initial []) sideBySideFile hreach⟩

/-! ## What an action leaves alone -/

/-- A section with its records, as it is read. -/
def Heap.sectionAt (h : Heap) : Sect → Ethernet StaticCfg ⊕ Wireless StaticCfg WpaCfg
  | .ether p => .inl (h.ethernet p)
  | .wlan p => .inr (h.wireless p)

/-- The section has been allocated. -/
def Sect.In (h : Heap) : Sect → Prop
  | .ether p => p < h.ethers.length
  | .wlan p => p < h.wlans.length

/-- The run is in the section: the state after the header's action, which allocated it, has
been on the stack since. -/
def Inside (c : Client Token Val Yy) (p q : State Token Val Yy) : Sect → Prop
  | .ether i => ∃ r, InSection c p 27 r q ∧ r.client.ether = some i
  | .wlan i => ∃ r, InSection c p 42 r q ∧ r.client.wlan = some i

section Frame

variable {h h' : Heap} {p : Nat}

theorem ethernet_congr (hrecord : h'.ethers[p]? = h.ethers[p]?)
    (hstatic : ∀ s, h.staticOf (.ether p) = some s → h'.static s = h.static s) :
    h'.ethernet p = h.ethernet p := by
  simp only [Heap.ethernet, List.getD_eq_getElem?_getD, hrecord]
  simp only [Heap.staticOf] at hstatic
  cases hx : h.ethers[p]? with
  | none => rfl
  | some x =>
      rw [hx] at hstatic
      have hmap : x.staticopts.map h'.static = x.staticopts.map h.static :=
        Option.map_congr hstatic
      simp only [Option.getD_some, hmap]

theorem wireless_congr (hrecord : h'.wlans[p]? = h.wlans[p]?)
    (hstatic : ∀ s, h.staticOf (.wlan p) = some s → h'.static s = h.static s)
    (hwpa : ∀ (x : Wireless Nat Nat) w, h.wlans[p]? = some x → x.wpa = some w →
      h'.wpa w = h.wpa w) : h'.wireless p = h.wireless p := by
  simp only [Heap.wireless, List.getD_eq_getElem?_getD, hrecord]
  simp only [Heap.staticOf] at hstatic
  cases hx : h.wlans[p]? with
  | none => rfl
  | some x =>
      rw [hx] at hstatic
      have hstatics : x.staticopts.map h'.static = x.staticopts.map h.static :=
        Option.map_congr hstatic
      have hwpas : x.wpa.map h'.wpa = x.wpa.map h.wpa := Option.map_congr fun w => hwpa x w hx
      simp only [Option.getD_some, hstatics, hwpas]

/-- Sections read the same if their structures and records are the same. -/
theorem sectionAt_congr (b : Sect)
    (hether : ∀ p, b = .ether p → h'.ethers[p]? = h.ethers[p]?)
    (hwlan : ∀ p, b = .wlan p → h'.wlans[p]? = h.wlans[p]?)
    (hstatic : ∀ s, h.staticOf b = some s → h'.static s = h.static s)
    (hwpa : ∀ p (x : Wireless Nat Nat) w, b = .wlan p → h.wlans[p]? = some x → x.wpa = some w →
      h'.wpa w = h.wpa w) : h'.sectionAt b = h.sectionAt b := by
  cases b with
  | ether p => exact congrArg Sum.inl (ethernet_congr (hether p rfl) hstatic)
  | wlan p =>
      exact congrArg Sum.inr
        (wireless_congr (hwlan p rfl) hstatic fun x w => hwpa p x w rfl)

theorem static_append {s : Nat} (hs : s < h.statics.length) (c : StaticCfg) :
    (h.statics ++ [c]).getD s StaticCfg.zero = h.static s :=
  List.getD_append _ _ _ _ hs

theorem getD_modify_of_ne {A : Type} {l : List A} {i j : Nat} (hne : i ≠ j) (f : A → A) (d : A) :
    (l.modify i f).getD j d = l.getD j d := by
  rw [List.getD_eq_getElem?_getD, List.getD_eq_getElem?_getD, List.getElem?_modify_ne f l hne]

/-- A change of one ethernet section, where static records may be added. -/
theorem frame_ether (hin : ∀ a s, h.staticOf a = some s → s < h.statics.length)
    (hethers : ∀ q, q ≠ p → h'.ethers[q]? = h.ethers[q]?) (hwlans : h'.wlans = h.wlans)
    (hstatics : ∀ s < h.statics.length, h'.static s = h.static s) (hwpas : h'.wpas = h.wpas)
    (b : Sect) (hb : b ≠ .ether p) : h'.sectionAt b = h.sectionAt b := by
  apply sectionAt_congr b
  · rintro q rfl
    exact hethers q fun heq => hb (congrArg Sect.ether heq)
  · intro q _
    rw [hwlans]
  · exact fun s hs => hstatics s (hin b s hs)
  · intro q x w _ _ _
    rw [Heap.wpa, Heap.wpa, hwpas]

/-- A change of one wireless section, where records may be added. -/
theorem frame_wlan (hin : ∀ a s, h.staticOf a = some s → s < h.statics.length)
    (hpaired : ∀ (q : Nat) (x : Wireless Nat Nat) w, h.wlans[q]? = some x → x.wpa = some w →
      w < h.wpas.length)
    (hethers : h'.ethers = h.ethers) (hwlans : ∀ q, q ≠ p → h'.wlans[q]? = h.wlans[q]?)
    (hstatics : ∀ s < h.statics.length, h'.static s = h.static s)
    (hwpas : ∀ w < h.wpas.length, h'.wpa w = h.wpa w)
    (b : Sect) (hb : b ≠ .wlan p) : h'.sectionAt b = h.sectionAt b := by
  apply sectionAt_congr b
  · intro q _
    rw [hethers]
  · rintro q rfl
    exact hwlans q fun heq => hb (congrArg Sect.wlan heq)
  · exact fun s hs => hstatics s (hin b s hs)
  · exact fun q x w _ hx hw => hwpas w (hpaired q x w hx hw)

end Frame

section Actions

variable {fs : FileSystem} {y₀ : Yy} {q : State Token Val Yy} {n first : Nat}

theorem inside_ether (hreach : Reaches tables (client fs) (.initial y₀) q)
    (hred : Reducing tables q n) (hn : n ∈ ethernetRules) {p : Nat}
    (hp : q.client.ether = some p) : Inside (client fs) (.initial y₀) q (.ether p) := by
  have hmarked := options_marked
  simp only [Bool.and_eq_true] at hmarked
  obtain ⟨r, hsection, p', s, hr, -, -, -, hq, -⟩ :=
    inSection_of_marked (ethernetScope (feeds_client fs)) hmarked.1.1.1 hreach hred hn
  cases hp.symm.trans hq
  exact ⟨r, hsection, hr⟩

theorem inside_wlan (hreach : Reaches tables (client fs) (.initial y₀) q)
    (hred : Reducing tables q n) (hn : n ∈ wirelessRules) {p : Nat}
    (hp : q.client.wlan = some p) : Inside (client fs) (.initial y₀) q (.wlan p) := by
  obtain ⟨r, hsection, p', w, s, hr, -, -, -, hq, -⟩ :=
    wireless_option (feeds_client fs) hreach hred hn
  cases hp.symm.trans hq
  exact ⟨r, hsection, hr⟩

/-- The record that a static option changes belongs to the section around it. -/
theorem exists_static_section (h₀ : Allocated y₀)
    (hreach : Reaches tables (client fs) (.initial y₀) q) (h : Tree first q.client)
    (hred : Reducing tables q n) (hn : n ∈ staticRules) {s : Nat}
    (hs : q.client.staticonfig = some s) :
    ∃ a, Inside (client fs) (.initial y₀) q a ∧
      ∀ b, q.client.heap.staticOf b = some s → b = a := by
  have hmarked := options_marked
  simp only [Bool.and_eq_true] at hmarked
  have hpath : Path Edge q.stack := hreach.path (sound Val) trivial
  obtain ⟨e, rest, hsuffix, hmark⟩ := exists_mark hmarked.1.2 hpath hn hred.reduces
  rw [List.mem_pair] at hmark
  rcases hmark with hmark | hmark
  · obtain ⟨r, hsection, hholds⟩ := inSection_of_mark (holdsScope fs) hreach hsuffix hmark
    obtain ⟨p, s', hr, -, hs', howner⟩ := hholds.owner h₀ hsection
    cases hs.symm.trans hs'
    exact ⟨.ether p, ⟨r, hsection, hr⟩, howner⟩
  · obtain ⟨r, hsection, p, w, s', hr, -, -, -, -, -, hs', x, hx, hown, -⟩ :=
      inSection_of_mark (wirelessScope (feeds_client fs)) hreach hsuffix hmark
    cases hs.symm.trans hs'
    refine ⟨.wlan p, ⟨r, hsection, hr⟩, fun b hb => h.statics b (.wlan p) s hb ?_⟩
    rw [Heap.staticOf, hx]
    exact hown

/-- The record that a WPA option changes belongs to the section around it. -/
theorem exists_wpa_section (hreach : Reaches tables (client fs) (.initial y₀) q)
    (h : Tree first q.client) (hred : Reducing tables q n) (hn : n ∈ wirelessRules) {w : Nat}
    (hw : q.client.wpa = some w) : Inside (client fs) (.initial y₀) q (.wlan w) := by
  obtain ⟨r, hsection, p, w', s, hr, -, -, -, -, hw', -, x, hx, -, hown⟩ :=
    wireless_option (feeds_client fs) hreach hred hn
  cases hw.symm.trans hw'
  cases hown.symm.trans (h.wpas.own p x hx)
  exact ⟨r, hsection, hr⟩

end Actions

/-- In every state of a parse, an action leaves all sections as they were but one: the one
it stands in or, for a header, the one it allocates. -/
theorem actions_touch_one_section {fs : FileSystem} {g : Globals} (hg : Parsed g) (file : File)
    {q : State Token Val Yy} (hreach : Reaches tables (client fs) (.initial (g.start file)) q)
    {n : Nat} (hred : Reducing tables q n) {v : Val} {z : Yy}
    (hact : (client fs).action n (q.stack.map Prod.snd) q.client = .ok v z) :
    ∃ a, (Inside (client fs) (.initial (g.start file)) q a ∨ ¬a.In q.client.heap) ∧
      ∀ b, b ≠ a → z.heap.sectionAt b = q.client.heap.sectionAt b := by
  obtain ⟨first, htree⟩ := hg.tree
  have hstart := htree.start file
  have h := hstart.reaches hreach
  have hin := h.allocated.statics
  have hpaired : ∀ (i : Nat) (x : Wireless Nat Nat) w, q.client.heap.wlans[i]? = some x →
      x.wpa = some w → w < q.client.heap.wpas.length := by
    intro i x w hx hw
    cases hw.symm.trans (h.wpas.own i x hx)
    rw [h.wpas.length]
    exact (List.getElem?_eq_some_iff.1 hx).1
  have heffect := action_heapEffect fs n (q.stack.map Prod.snd)
    (defaultVal n (q.stack.map Prod.snd)) q.client
  rw [show action fs n _ _ q.client = _ from hact] at heffect
  cases heffect with
  | quiet hheap =>
      refine ⟨.ether q.client.heap.ethers.length, .inr (Nat.lt_irrefl _), fun b _ => ?_⟩
      rw [hheap]
      exact sectionAt_congr b (fun _ _ => rfl) (fun _ _ => rfl) (fun _ _ => rfl)
        fun _ _ _ _ _ _ => rfl
  | network =>
      refine ⟨.ether q.client.heap.ethers.length, .inr (Nat.lt_irrefl _), fun b _ => ?_⟩
      exact sectionAt_congr b (fun _ _ => rfl) (fun _ _ => rfl) (fun _ _ => rfl)
        fun _ _ _ _ _ _ => rfl
  | ethernet _ _ x _ c =>
      refine ⟨.ether q.client.heap.ethers.length, .inr (Nat.lt_irrefl _), ?_⟩
      exact frame_ether hin (fun i hi => getElem?_append_of_ne x hi) rfl
        (fun s hs => static_append hs c) rfl
  | wireless _ x _ c w =>
      refine ⟨.wlan q.client.heap.wlans.length, .inr (Nat.lt_irrefl _), ?_⟩
      exact frame_wlan hin hpaired rfl (fun i hi => getElem?_append_of_ne x hi)
        (fun s hs => static_append hs c) fun i hi => List.getD_append _ _ _ _ hi
  | setEther hn hp f =>
      refine ⟨_, .inl (inside_ether hreach hred hn hp), ?_⟩
      exact frame_ether hin (fun i hi => List.getElem?_modify_ne f _ (Ne.symm hi)) rfl
        (fun _ _ => rfl) rfl
  | etherDhcp hn hp f =>
      refine ⟨_, .inl (inside_ether hreach hred (by rw [hn]; decide) hp), ?_⟩
      exact frame_ether hin (fun i hi => List.getElem?_modify_ne f _ (Ne.symm hi)) rfl
        (fun _ _ => rfl) rfl
  | etherNew hn hp f _ c =>
      refine ⟨_, .inl (inside_ether hreach hred (by rw [hn]; decide) hp), ?_⟩
      exact frame_ether hin (fun i hi => List.getElem?_modify_ne f _ (Ne.symm hi)) rfl
        (fun s hs => static_append hs c) rfl
  | setWlan hn hp f =>
      refine ⟨_, .inl (inside_wlan hreach hred hn hp), ?_⟩
      exact frame_wlan hin hpaired rfl (fun i hi => List.getElem?_modify_ne f _ (Ne.symm hi))
        (fun _ _ => rfl) fun _ _ => rfl
  | wlanNew hn hp f _ c =>
      refine ⟨_, .inl (inside_wlan hreach hred (by rw [hn]; decide) hp), ?_⟩
      exact frame_wlan hin hpaired rfl (fun i hi => List.getElem?_modify_ne f _ (Ne.symm hi))
        (fun s hs => static_append hs c) fun _ _ => rfl
  | @setWpa w hn hp f =>
      refine ⟨.wlan w, .inl (exists_wpa_section hreach h hred hn hp), fun b hb => ?_⟩
      refine sectionAt_congr b (fun _ _ => rfl) (fun _ _ => rfl) (fun _ _ => rfl) ?_
      rintro i x w' rfl hx hw'
      cases hw'.symm.trans (h.wpas.own i x hx)
      exact getD_modify_of_ne (fun heq => hb (congrArg Sect.wlan heq.symm)) f _
  | @setStatic s hn hp f =>
      obtain ⟨a, hinside, howner⟩ :=
        exists_static_section hstart.allocated hreach h hred hn hp
      refine ⟨a, .inl hinside, fun b hb => ?_⟩
      refine sectionAt_congr b (fun _ _ => rfl) (fun _ _ => rfl) ?_ fun _ _ _ _ _ _ => rfl
      intro s' hs'
      refine getD_modify_of_ne ?_ f _
      rintro rfl
      exact hb (howner b hs')

theorem actions_touch_one_section_sideBySide :
    ∃ q v z, Reaches tables (client sideBySide)
        (.initial ((Globals.initial []).start sideBySideFile)) q ∧ Reducing tables q 87 ∧
      (client sideBySide).action 87 (q.stack.map Prod.snd) q.client = .ok v z ∧
      ∃ a, (Inside (client sideBySide) (.initial ((Globals.initial []).start sideBySideFile)) q a ∨
          ¬a.In q.client.heap) ∧
        ∀ b, b ≠ a → z.heap.sectionAt b = q.client.heap.sectionAt b := by
  obtain ⟨q, hreach, hred, -, -, v, z, hact⟩ := exists_sideBySide
  exact ⟨q, v, z, hreach, hred, hact,
    actions_touch_one_section (.initial []) sideBySideFile hreach hred hact⟩

end Ifconfigd.Parse
