import Ifconfigd.Parse.Notes
import Mathlib.Data.List.Induction

/-!
# The options of a section

An ethernet or wireless section is what its options make of it. The options that both
kinds of section have are noted while a block is read, from the action of its header to
the reduction of the whole section, and the records of the section are computed from the
list of notes alone: a setting is the last one given, and the static configuration is
collected in a record of its own.

The two kinds differ in what `dhcp` does to that record. In an ethernet section it is
unlinked and linked again. In a wireless section `dhcp no` starts a new one.
-/

namespace Ifconfigd.Parse

open CLib Yacc

/-! ## Options -/

/-- The options that ethernet and wireless sections share. -/
inductive Opt
  | interface (s : CStr)
  | priority (n : Int)
  | dhcp (yes : Bool)
  | domainName (s : CStr)
  | domainNameServers (s : CStr)
  | inet (s : CStr)
  | netmask (s : CStr)
  | lladdr (s : CStr)
  | runUp (s : CStr)
  | runDown (s : CStr)
  deriving DecidableEq

/-- The options of the static configuration, as they are read. -/
def staticNote (n : Nat) (vs : List Val) : List Opt :=
  match n, vs with
  | 85, .string s :: _ => [.domainName s]
  | 86, .string s :: _ => [.domainNameServers s]
  | 87, .string s :: _ => [.inet s]
  | 88, .string s :: _ => [.netmask s]
  | _, _ => []

/-- The shared options in an ethernet section. -/
def etherNote (n : Nat) (vs : List Val) (_ : Yy) : List Opt :=
  match n, vs with
  | 35, .number k :: _ => [.priority k]
  | 36, .string s :: _ => [.interface s]
  | 37, .number k :: _ => [.dhcp (k ≠ 0)]
  | 39, .string s :: _ => [.lladdr s]
  | 40, .string s :: _ => [.runUp s]
  | 41, .string s :: _ => [.runDown s]
  | _, _ => staticNote n vs

/-- The shared options in a wireless section. -/
def wlanNote (n : Nat) (vs : List Val) (_ : Yy) : List Opt :=
  match n, vs with
  | 50, .number k :: _ => [.priority k]
  | 51, .string s :: _ => [.interface s]
  | 56, .number k :: _ => [.dhcp (k ≠ 0)]
  | 60, .string s :: _ => [.runUp s]
  | 61, .string s :: _ => [.runDown s]
  | 62, .string s :: _ => [.lladdr s]
  | _, _ => staticNote n vs

/-- The members of a section that the shared options set, apart from the static record. -/
structure Settings where
  interface : List Byte
  priority : Int
  isdhcp : Int
  lladdr : Option CStr
  runUp : Option CStr
  runDown : Option CStr
  deriving DecidableEq

/-- The settings of a new section. -/
def Settings.zero : Settings := ⟨List.replicate interfaceSize 0, 0, 0, none, none, none⟩

/-- What an option does to the settings. -/
def Settings.apply (c : Settings) : Opt → Settings
  | .interface s => { c with interface := strncpy interfaceSize s }
  | .priority n => { c with priority := toInt n }
  | .dhcp yes => { c with isdhcp := if yes then 1 else 0 }
  | .lladdr s => { c with lladdr := some s }
  | .runUp s => { c with runUp := some s }
  | .runDown s => { c with runDown := some s }
  | _ => c

/-- What an option does to the static record that is being filled. -/
def applyStatic (c : StaticCfg) : Opt → StaticCfg
  | .domainName s => { c with domainname := some s }
  | .domainNameServers s => { c with domainserver := some s }
  | .inet s => { c with inet := some s }
  | .netmask s => { c with netmask := some s }
  | _ => c

/-- The same in a wireless section, where `dhcp no` begins with a new record. -/
def applyStaticAnew (c : StaticCfg) : Opt → StaticCfg
  | .dhcp false => StaticCfg.zero
  | o => applyStatic c o

/-- The settings after a list of options. -/
def settingsAfter (os : List Opt) : Settings := os.foldl Settings.apply .zero

/-- The static record of an ethernet section after a list of options. -/
def staticAfter (os : List Opt) : StaticCfg := os.foldl applyStatic .zero

/-- The static record of a wireless section after a list of options. -/
def staticAfterAnew (os : List Opt) : StaticCfg := os.foldl applyStaticAnew .zero

@[simp] theorem settingsAfter_concat (os : List Opt) (o : Opt) :
    settingsAfter (os ++ [o]) = (settingsAfter os).apply o := List.foldl_concat _ _ _ _

@[simp] theorem staticAfter_concat (os : List Opt) (o : Opt) :
    staticAfter (os ++ [o]) = applyStatic (staticAfter os) o := List.foldl_concat _ _ _ _

@[simp] theorem staticAfterAnew_concat (os : List Opt) (o : Opt) :
    staticAfterAnew (os ++ [o]) = applyStaticAnew (staticAfterAnew os) o :=
  List.foldl_concat _ _ _ _

def etherSettings {S : Type} (e : Ethernet S) : Settings :=
  ⟨e.interface, e.priority, e.isdhcp, e.lladdr, e.runUp, e.runDown⟩

def wlanSettings {S W : Type} (w : Wireless S W) : Settings :=
  ⟨w.interface, w.priority, w.isdhcp, w.lladdr, w.runUp, w.runDown⟩

/-! ## Ethernet sections -/

/-- The ethernet section `p` with the static record `s`, after the options `os` of its
block. -/
structure EtherRead (p s : Nat) (os : List Opt) (y : Yy) : Prop where
  ether : y.ether = some p
  staticonfig : y.staticonfig = some s
  record : ∃ e, y.heap.ethers[p]? = some e ∧ etherSettings e = settingsAfter os ∧
    e.staticopts = if e.isdhcp = 1 then none else some s
  static : y.heap.statics[s]? = some (staticAfter os)

section Ethernet

variable {p s : Nat} {os : List Opt} {y : Yy} {v : Val}

/-- Nothing that belongs to the section was touched. -/
theorem EtherRead.same (h : EtherRead p s os y) {z : Yy} (hether : z.ether = y.ether)
    (hconfig : z.staticonfig = y.staticonfig) (hethers : z.heap.ethers = y.heap.ethers)
    (hstatics : z.heap.statics = y.heap.statics) : EtherRead p s os z where
  ether := hether.trans h.ether
  staticonfig := hconfig.trans h.staticonfig
  record := by rw [hethers]; exact h.record
  static := by rw [hstatics]; exact h.static

theorem EtherRead.setEther (h : EtherRead p s os y) {o : Opt} {f : Ethernet Nat → Ethernet Nat}
    (hf : ∀ e, etherSettings (f e) = (etherSettings e).apply o)
    (hkeep : ∀ e, (f e).isdhcp = e.isdhcp ∧ (f e).staticopts = e.staticopts)
    (ho : applyStatic (staticAfter os) o = staticAfter os) :
    Returns (EtherRead p s (os ++ [o])) (setEther v f y) := by
  obtain ⟨e, he, hsettings, hstatic⟩ := h.record
  simp only [Parse.setEther, h.ether, withPtr]
  refine returns_ok ⟨rfl, h.staticonfig, ⟨f e, by simp [he], ?_, ?_⟩, ?_⟩
  · rw [hf, hsettings, settingsAfter_concat]
  · rw [(hkeep e).1, (hkeep e).2, hstatic]
  · rw [staticAfter_concat, ho]
    exact h.static

theorem EtherRead.setStatic (h : EtherRead p s os y) {o : Opt}
    (ho : (settingsAfter os).apply o = settingsAfter os) :
    Returns (EtherRead p s (os ++ [o])) (setStatic v (fun c => applyStatic c o) y) := by
  simp only [Parse.setStatic, h.staticonfig, withPtr]
  refine returns_ok ⟨h.ether, rfl, ?_, by simp [h.static]⟩
  rw [settingsAfter_concat, ho]
  exact h.record

theorem EtherRead.dhcp (h : EtherRead p s os y) (yes : Int) :
    Returns (EtherRead p s (os ++ [.dhcp (yes ≠ 0)])) (actEthernetDhcp v yes y) := by
  obtain ⟨e, he, hsettings, -⟩ := h.record
  have hnone : y.staticonfig ≠ none := by simp [h.staticonfig]
  simp only [actEthernetDhcp, if_neg hnone, Parse.setEther, h.ether, withPtr]
  split
  · next hno =>
      refine returns_ok ⟨rfl, h.staticonfig,
        ⟨{ e with isdhcp := 0, staticopts := y.staticonfig }, by simp [he], ?_, ?_⟩, ?_⟩
      · simp [hno, Settings.apply, ← hsettings, etherSettings]
      · simp [h.staticonfig]
      · rw [staticAfter_concat]
        exact h.static
  · next hyes =>
      refine returns_ok ⟨rfl, h.staticonfig,
        ⟨{ e with isdhcp := 1, staticopts := none }, by simp [he], ?_, ?_⟩, ?_⟩
      · simp [hyes, Settings.apply, ← hsettings, etherSettings]
      · simp
      · rw [staticAfter_concat]
        exact h.static

theorem etherNote_of_not_mem {n : Nat} (hn : n ∉ [35, 36, 37, 39, 40, 41, 85, 86, 87, 88])
    (vs : List Val) (y : Yy) : etherNote n vs y = [] := by
  unfold etherNote staticNote
  split <;> first | (split <;> simp_all) | simp_all

/-- An action that reads no shared option, inside an ethernet block. -/
theorem EtherRead.other (h : EtherRead p s os y) (fs : FileSystem) {n : Nat}
    (hn : n ∉ [20, 21, 27, 28, 42, 43, 56])
    (hopt : n ∉ [35, 36, 37, 39, 40, 41, 85, 86, 87, 88]) (vs : List Val) :
    (action fs n vs v y).Holds (EtherRead p s os) := by
  unfold action
  split
  all_goals first
    | exact absurd (by decide) hn
    | exact absurd (by decide) hopt
    | exact h.same rfl rfl rfl rfl
    | exact withString_holds fun _ => withPtr_holds fun _ => h.same rfl rfl rfl rfl
    | exact withNumber_holds fun _ => withPtr_holds fun _ => h.same rfl rfl rfl rfl
    | exact withString_holds fun _ => withString_holds fun _ => h.same rfl rfl rfl rfl
    | exact withString_holds fun name => by
        simp only [actInclude]
        split <;> exact h.same rfl rfl rfl rfl
    | exact withNumber_holds fun k => by
        simp only [actGlobal]
        split <;> exact h.same rfl rfl rfl rfl

/-- Each action inside an ethernet block. -/
theorem EtherRead.action (h : EtherRead p s os y) (fs : FileSystem) {n : Nat}
    (hn : n ∉ [20, 21, 27, 28, 42, 43, 56]) (vs : List Val) :
    Returns (EtherRead p s (os ++ etherNote n vs y)) (action fs n vs v y) := by
  by_cases hopt : n ∈ [35, 36, 37, 39, 40, 41, 85, 86, 87, 88]
  · simp only [List.mem_cons, List.not_mem_nil, or_false] at hopt
    rcases hopt with rfl | rfl | rfl | rfl | rfl | rfl | rfl | rfl | rfl | rfl
    all_goals first
      | refine withNumber_returns ?_
        rintro k vs' rfl
        first
          | exact h.dhcp k
          | exact h.setEther (fun _ => rfl) (fun _ => ⟨rfl, rfl⟩) rfl
      | refine withString_returns ?_
        rintro t vs' rfl
        first
          | exact h.setEther (fun _ => rfl) (fun _ => ⟨rfl, rfl⟩) rfl
          | exact h.setStatic rfl
  · rw [etherNote_of_not_mem hopt, List.append_nil]
    exact returns_of_holds (h.other fs hn hopt vs)

end Ethernet

/-! ## Wireless sections -/

/-- The wireless section `p` after the options `os` of its block. -/
structure WlanRead (p : Nat) (os : List Opt) (y : Yy) : Prop where
  wlan : y.wlan = some p
  record : ∃ s w, y.staticonfig = some s ∧ y.heap.wlans[p]? = some w ∧
    wlanSettings w = settingsAfter os ∧ w.staticopts = some s ∧
    y.heap.statics[s]? = some (staticAfterAnew os)

section Wireless

variable {p : Nat} {os : List Opt} {y : Yy} {v : Val}

theorem WlanRead.same (h : WlanRead p os y) {z : Yy} (hwlan : z.wlan = y.wlan)
    (hconfig : z.staticonfig = y.staticonfig) (hwlans : z.heap.wlans = y.heap.wlans)
    (hstatics : z.heap.statics = y.heap.statics) : WlanRead p os z where
  wlan := hwlan.trans h.wlan
  record := by rw [hconfig, hwlans, hstatics]; exact h.record

/-- An option that is not shared leaves the settings alone. -/
theorem WlanRead.setOther (h : WlanRead p os y) {f : Wireless Nat Nat → Wireless Nat Nat}
    (hf : ∀ w, wlanSettings (f w) = wlanSettings w ∧ (f w).staticopts = w.staticopts) :
    (setWlan v f y).Holds (WlanRead p os) := by
  obtain ⟨s, w, hs, hw, hsettings, hopts, hstatic⟩ := h.record
  simp only [setWlan, h.wlan, withPtr]
  refine ⟨rfl, s, f w, hs, by simp [hw], ?_, ?_, hstatic⟩
  · rw [(hf w).1, hsettings]
  · rw [(hf w).2, hopts]

theorem WlanRead.setWlan (h : WlanRead p os y) {o : Opt} {f : Wireless Nat Nat → Wireless Nat Nat}
    (hf : ∀ w, wlanSettings (f w) = (wlanSettings w).apply o)
    (hkeep : ∀ w, (f w).staticopts = w.staticopts)
    (ho : applyStaticAnew (staticAfterAnew os) o = staticAfterAnew os) :
    Returns (WlanRead p (os ++ [o])) (setWlan v f y) := by
  obtain ⟨s, w, hs, hw, hsettings, hopts, hstatic⟩ := h.record
  simp only [Parse.setWlan, h.wlan, withPtr]
  refine returns_ok ⟨rfl, s, f w, hs, by simp [hw], ?_, ?_, ?_⟩
  · rw [hf, hsettings, settingsAfter_concat]
  · rw [hkeep, hopts]
  · rw [staticAfterAnew_concat, ho]
    exact hstatic

theorem WlanRead.setStatic (h : WlanRead p os y) {o : Opt}
    (ho : (settingsAfter os).apply o = settingsAfter os)
    (hanew : ∀ c, applyStaticAnew c o = applyStatic c o) :
    Returns (WlanRead p (os ++ [o])) (setStatic v (fun c => applyStatic c o) y) := by
  obtain ⟨s, w, hs, hw, hsettings, hopts, hstatic⟩ := h.record
  simp only [Parse.setStatic, hs, withPtr]
  refine returns_ok ⟨h.wlan, s, w, rfl, hw, ?_, hopts, ?_⟩
  · rw [settingsAfter_concat, ho, hsettings]
  · simp [hstatic, hanew]

theorem WlanRead.dhcp (h : WlanRead p os y) (yes : Int) :
    Returns (WlanRead p (os ++ [.dhcp (yes ≠ 0)])) (actWirelessDhcp v yes y) := by
  obtain ⟨s, w, hs, hw, hsettings, hopts, hstatic⟩ := h.record
  simp only [actWirelessDhcp]
  split
  · next hno =>
      -- The section gets a new record; what was collected so far stays behind.
      simp only [newStatic, Parse.setWlan, h.wlan, withPtr]
      refine returns_ok ⟨rfl, y.heap.statics.length,
        { w with isdhcp := 0, staticopts := some y.heap.statics.length }, rfl, by simp [hw], ?_,
        rfl, ?_⟩
      · simp [hno, Settings.apply, ← hsettings, wlanSettings]
      · simp [hno, applyStaticAnew]
  · next hyes =>
      simp only [Parse.setWlan, h.wlan, withPtr]
      refine returns_ok ⟨rfl, s, { w with isdhcp := 1 }, hs, by simp [hw], ?_, hopts, ?_⟩
      · simp [hyes, Settings.apply, ← hsettings, wlanSettings]
      · simp [hyes, applyStaticAnew, applyStatic, hstatic]

theorem wlanNote_of_not_mem {n : Nat} (hn : n ∉ [50, 51, 56, 60, 61, 62, 85, 86, 87, 88])
    (vs : List Val) (y : Yy) : wlanNote n vs y = [] := by
  unfold wlanNote staticNote
  split <;> first | (split <;> simp_all) | simp_all

/-- An action that reads no shared option, inside a wireless block. -/
theorem WlanRead.other (h : WlanRead p os y) (fs : FileSystem) {n : Nat}
    (hn : n ∉ [20, 21, 27, 28, 42, 43])
    (hopt : n ∉ [50, 51, 56, 60, 61, 62, 85, 86, 87, 88]) (vs : List Val) :
    (action fs n vs v y).Holds (WlanRead p os) := by
  obtain ⟨s, -, hs, -⟩ := h.record
  have hnone : y.staticonfig ≠ none := by simp [hs]
  unfold action
  split
  all_goals first
    | exact absurd (by decide) hn
    | exact absurd (by decide) hopt
    | exact h.same rfl rfl rfl rfl
    | exact withString_holds fun _ => withPtr_holds fun _ => h.same rfl rfl rfl rfl
    | exact withNumber_holds fun _ => withPtr_holds fun _ => h.same rfl rfl rfl rfl
    | exact withString_holds fun _ => withString_holds fun _ => h.same rfl rfl rfl rfl
    | exact withString_holds fun _ => h.setOther fun _ => ⟨rfl, rfl⟩
    | exact withNumber_holds fun _ => h.setOther fun _ => ⟨rfl, rfl⟩
    | exact withString_holds fun name => by
        simp only [actInclude]
        split <;> exact h.same rfl rfl rfl rfl
    | exact withNumber_holds fun k => by
        simp only [actGlobal]
        split <;> exact h.same rfl rfl rfl rfl
    | exact withNumber_holds fun k => by
        simp only [actEthernetDhcp, if_neg hnone]
        split <;> exact withPtr_holds fun _ => h.same rfl rfl rfl rfl

/-- Each action inside a wireless block. -/
theorem WlanRead.action (h : WlanRead p os y) (fs : FileSystem) {n : Nat}
    (hn : n ∉ [20, 21, 27, 28, 42, 43]) (vs : List Val) :
    Returns (WlanRead p (os ++ wlanNote n vs y)) (action fs n vs v y) := by
  by_cases hopt : n ∈ [50, 51, 56, 60, 61, 62, 85, 86, 87, 88]
  · simp only [List.mem_cons, List.not_mem_nil, or_false] at hopt
    rcases hopt with rfl | rfl | rfl | rfl | rfl | rfl | rfl | rfl | rfl | rfl
    all_goals first
      | refine withNumber_returns ?_
        rintro k vs' rfl
        first
          | exact h.dhcp k
          | exact h.setWlan (fun _ => rfl) (fun _ => rfl) rfl
      | refine withString_returns ?_
        rintro t vs' rfl
        first
          | exact h.setWlan (fun _ => rfl) (fun _ => rfl) rfl
          | exact h.setStatic rfl fun _ => rfl
  · rw [wlanNote_of_not_mem hopt, List.append_nil]
    exact returns_of_holds (h.other fs hn hopt vs)

end Wireless

/-! ## The sections in the tree -/

theorem Heap.static_of_getElem? {h : Heap} {s : Nat} {c : StaticCfg}
    (hs : h.statics[s]? = some c) : h.static s = c := by
  rw [Heap.static, List.getD_eq_getElem?_getD, hs, Option.getD_some]

/-- The ethernet section as its readers see it. -/
theorem EtherRead.ethernet {p s : Nat} {os : List Opt} {y : Yy} (h : EtherRead p s os y) :
    etherSettings (y.heap.ethernet p) = settingsAfter os ∧
      (y.heap.ethernet p).staticopts =
        if (settingsAfter os).isdhcp = 1 then none else some (staticAfter os) := by
  obtain ⟨e, he, hsettings, hopts⟩ := h.record
  have hdhcp : e.isdhcp = (settingsAfter os).isdhcp := by
    rw [← hsettings]
    rfl
  simp only [Heap.ethernet, List.getD_eq_getElem?_getD, he, Option.getD_some]
  refine ⟨hsettings, ?_⟩
  rw [hopts, hdhcp]
  split
  · rfl
  · rw [Option.map_some, Heap.static_of_getElem? h.static]

/-- The wireless section as its readers see it. -/
theorem WlanRead.wireless {p : Nat} {os : List Opt} {y : Yy} (h : WlanRead p os y) :
    wlanSettings (y.heap.wireless p) = settingsAfter os ∧
      (y.heap.wireless p).staticopts = some (staticAfterAnew os) := by
  obtain ⟨s, w, -, hw, hsettings, hopts, hstatic⟩ := h.record
  simp only [Heap.wireless, List.getD_eq_getElem?_getD, hw, Option.getD_some]
  refine ⟨hsettings, ?_⟩
  rw [hopts, Option.map_some, Heap.static_of_getElem? hstatic]

/-! ## Whole blocks -/

theorem etherRead_of_block {fs : FileSystem} {c : Client Token Val Yy} (hc : Feeds fs c) {y : Yy}
    {r q : State Token Val Yy} {os : List Opt} (h : SectionBlock c y etherNote 27 r os q) :
    ∃ p s, r.client.ether = some p ∧ EtherRead p s os q.client := by
  have hopen : ∃ p s, r.client.ether = some p ∧ EtherRead p s [] r.client := by
    obtain ⟨q₀, v, -, -, hact, -⟩ := h.opened
    rw [action_of_feeds hc] at hact
    simp only [action, withString, actEthernet, withPtr] at hact
    split at hact
    · split at hact
      · injection hact with _ hclient
        rw [← hclient]
        exact ⟨_, _, rfl, rfl, rfl, ⟨_, List.getElem?_concat_length, rfl, rfl⟩,
          List.getElem?_concat_length⟩
      · cases hact
    · cases hact
  obtain ⟨p, s, hether, hread⟩ := hopen
  refine ⟨p, s, hether, h.holds hc (o := (ethernetMark, [20, 21, 27, 28, 42, 43, 56])) (by decide)
    (by decide : (ethernetMark, Nonterm.ethernetAction, 27) ∈ marks) (ethernetScope hc) (fun _ _ _ _ => hread) ?_ ?_⟩
  · exact fun _ _ _ h => h.same rfl rfl rfl rfl
  · exact fun _ n vs _ v z hn h hz => h.action fs hn vs v z hz

theorem wlanRead_of_block {fs : FileSystem} {c : Client Token Val Yy} (hc : Feeds fs c) {y : Yy}
    {r q : State Token Val Yy} {os : List Opt} (h : SectionBlock c y wlanNote 42 r os q) :
    ∃ p, r.client.wlan = some p ∧ WlanRead p os q.client := by
  have hopen : ∃ p, r.client.wlan = some p ∧ WlanRead p [] r.client := by
    obtain ⟨q₀, v, -, -, hact, -⟩ := h.opened
    rw [action_of_feeds hc] at hact
    simp only [action, withString, actWireless, withPtr] at hact
    split at hact
    · split at hact
      · injection hact with _ hclient
        rw [← hclient]
        exact ⟨_, rfl, rfl, _, _, rfl, List.getElem?_concat_length, rfl, rfl,
          List.getElem?_concat_length⟩
      · cases hact
    · cases hact
  obtain ⟨p, hwlan, hread⟩ := hopen
  refine ⟨p, hwlan, h.holds hc (o := (wirelessMark, [20, 21, 27, 28, 42, 43])) (by decide)
    (by decide : (wirelessMark, Nonterm.wirelessAction, 42) ∈ marks) (wirelessScope hc) (fun _ _ _ _ => hread) ?_ ?_⟩
  · exact fun _ _ _ h => h.same rfl rfl rfl rfl
  · exact fun _ n vs _ v z hn h hz => h.action fs hn vs v z hz

/-! ## The last option wins -/

/-- The value of an option, for the options of one kind. -/
def Opt.dhcp? : Opt → Option Bool
  | .dhcp yes => some yes
  | _ => none

def Opt.domainName? : Opt → Option CStr
  | .domainName s => some s
  | _ => none

def Opt.domainNameServers? : Opt → Option CStr
  | .domainNameServers s => some s
  | _ => none

def Opt.inet? : Opt → Option CStr
  | .inet s => some s
  | _ => none

def Opt.netmask? : Opt → Option CStr
  | .netmask s => some s
  | _ => none

theorem settingsAfter_isdhcp (os : List Opt) :
    (settingsAfter os).isdhcp = if lastOf Opt.dhcp? os = some true then 1 else 0 := by
  induction os using List.reverseRecOn with
  | nil => rfl
  | append_singleton os o ih =>
      rw [settingsAfter_concat, lastOf_append, lastOf_singleton]
      cases o with
      | dhcp yes => cases yes <;> rfl
      | _ => exact ih

/-- The static record of an ethernet section holds the values given last. -/
theorem staticAfter_eq (os : List Opt) :
    staticAfter os = ⟨lastOf Opt.inet? os, lastOf Opt.netmask? os, lastOf Opt.domainName? os,
      lastOf Opt.domainNameServers? os⟩ := by
  induction os using List.reverseRecOn with
  | nil => rfl
  | append_singleton os o ih =>
      rw [staticAfter_concat, ih]
      simp only [lastOf_append, lastOf_singleton]
      cases o <;> rfl

/-- In any run, at any point of an ethernet block, and so at its end: the section uses DHCP
exactly if the last `dhcp` was `yes`, it has no static record exactly if it uses DHCP, and
otherwise the record holds the values given last, wherever in the block that was. -/
theorem ethernet_addressing {fs : FileSystem} {c : Client Token Val Yy} (hc : Feeds fs c) {y : Yy}
    {r q : State Token Val Yy} {os : List Opt} (h : SectionBlock c y etherNote 27 r os q) :
    ∃ p, r.client.ether = some p ∧
      let eth := q.client.heap.ethernet p
      (eth.isdhcp = 1 ↔ lastOf Opt.dhcp? os = some true) ∧
      (eth.staticopts = none ↔ eth.isdhcp = 1) ∧
      ∀ static, eth.staticopts = some static →
        static.inet = lastOf Opt.inet? os ∧ static.netmask = lastOf Opt.netmask? os ∧
        static.domainname = lastOf Opt.domainName? os ∧
        static.domainserver = lastOf Opt.domainNameServers? os := by
  obtain ⟨p, s, hether, hread⟩ := etherRead_of_block hc h
  obtain ⟨hsettings, hopts⟩ := hread.ethernet
  have hdhcp : (q.client.heap.ethernet p).isdhcp = (settingsAfter os).isdhcp :=
    congrArg Settings.isdhcp hsettings
  refine ⟨p, hether, ?_, ?_, ?_⟩
  · rw [hdhcp, settingsAfter_isdhcp]
    split <;> simp_all
  · rw [hopts, hdhcp]
    split <;> simp_all
  · intro static hsome
    rw [hopts] at hsome
    split at hsome
    · cases hsome
    · cases hsome
      rw [staticAfter_eq]
      exact ⟨rfl, rfl, rfl, rfl⟩

/-- A configuration with one section of the kind, which has the options. -/
def oneBlock (kind options : String) : FileSystem where
  stdin := asciiBytes "network n \x7b\n" ++ asciiBytes kind ++ asciiBytes " s \x7b\n" ++
    asciiBytes options ++ asciiBytes "\x7d\n\x7d\n"
  inode _ := none
  uid := 0
  openMax := none

/-- The state in which the parser reads it. -/
def blockStart (kind options : String) : Yy :=
  (Globals.initial []).start ⟨CStr.lit "stdin", (oneBlock kind options).stdin, 1, 0⟩

/-- The block is read from the step of its header to that of the section, with the options
in the list. -/
def readsBlock (kind options : String) (note : Nat → List Val → Yy → List Opt)
    (rule close j : Nat) (os : List Opt) : Bool :=
  (readBlock (client (oneBlock kind options)) (blockStart kind options) note rule 17 j).any
    fun x => x.2.1 = os ∧ nextRule tables x.2.2 = some close

theorem exists_of_readsBlock {kind options : String} {note : Nat → List Val → Yy → List Opt}
    {rule close j : Nat} {os : List Opt} (h : readsBlock kind options note rule close j os = true) :
    ∃ r q, SectionBlock (client (oneBlock kind options)) (blockStart kind options) note rule r os q ∧
      Reducing tables q close := by
  obtain ⟨⟨r, os', q⟩, hread, htest⟩ := (Option.any_eq_true _ _).1 h
  simp only [decide_eq_true_eq] at htest
  obtain ⟨rfl, hclose⟩ := htest
  exact ⟨r, q, block_of_readBlock hread, nextRule_eq_some_iff.1 hclose⟩

theorem ethernet_addressing_toggled :
    ∃ r q, SectionBlock (client (oneBlock "ethernet" "dhcp yes\ninet \"a\"\ndhcp no\n"))
        (blockStart "ethernet" "dhcp yes\ninet \"a\"\ndhcp no\n") etherNote 27 r
        [.dhcp true, .inet (.lit "a"), .dhcp false] q ∧
      Reducing tables q 28 ∧
      ∃ p, r.client.ether = some p ∧ (q.client.heap.ethernet p).isdhcp ≠ 1 ∧
        ∃ static, (q.client.heap.ethernet p).staticopts = some static ∧
          static.inet = some (.lit "a") ∧ static.netmask = none := by
  have hread : readsBlock "ethernet" "dhcp yes\ninet \"a\"\ndhcp no\n" etherNote 27 28 44
      [.dhcp true, .inet (.lit "a"), .dhcp false] = true := by
    decide +kernel
  obtain ⟨r, q, hblock, hclose⟩ := exists_of_readsBlock hread
  obtain ⟨p, hether, hdhcp, hnone, hstatic⟩ := ethernet_addressing (feeds_client _) hblock
  have hoff : (q.client.heap.ethernet p).isdhcp ≠ 1 := fun h => absurd (hdhcp.1 h) (by decide)
  obtain ⟨static, hsome⟩ := Option.ne_none_iff_exists'.1 (fun h => hoff (hnone.1 h))
  exact ⟨r, q, hblock, hclose, p, hether, hoff, static, hsome, (hstatic static hsome).1,
    (hstatic static hsome).2.1⟩

end Ifconfigd.Parse
