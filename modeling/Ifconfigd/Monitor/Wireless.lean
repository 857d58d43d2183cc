import Ifconfigd.Monitor.Ethernet

/-!
# Searching for a wireless network

`monitor_wireless` goes through the wireless sections. It switches the section's
interface on, scans for access points, and connects if what it found suits the
section. Only the first access point of the right name is looked at. A section that
was found but does not suit ends the search in its network with a `break`, before
the interface is switched off again.

`ieee80211_scan` hands back pointers into its own frame. The model takes the nodes
to be still there when they are read.
-/

namespace Ifconfigd.Monitor

open CLib

/-! ## Scanning -/

/-- `struct ieee80211_nodereq`, as far as it is read. The name need not be terminated:
`nwid` holds the bytes from `nr_nwid` on. -/
structure Nodereq where
  bssid : List Byte
  nwid : List Byte
  channel : UInt16
  rssi : UInt8
  flags : UInt8
  deriving DecidableEq

/-- `nr_flags & IEEE80211_NODEREQ_AP`. -/
def Nodereq.isAp (nr : Nodereq) : Bool := nr.flags &&& 1 ≠ 0

/-- The loop over the names asked for; `strcmp` does not survive a null pointer. -/
def matchNwids (nr : Nodereq) : List (Option CStr) → Option (List Nodereq)
  | [] => some []
  | none :: _ => none
  | some nwid :: nwids =>
      (matchNwids nr nwids).map fun found => if CStr.read nr.nwid = nwid then nr :: found else found

/-- `ieee80211_scan`, given the nodes the kernel reports: what it leaves in `resault`,
as many as it returns. -/
def ieee80211Scan (nwids : List (Option CStr)) : List Nodereq → Option (List Nodereq)
  | [] => some []
  | nr :: nodes =>
      if nr.isAp then
        match matchNwids nr nwids with
        | none => none
        | some found => (ieee80211Scan nwids nodes).map (found ++ ·)
      else ieee80211Scan nwids nodes

/-- `(nr_rssi*100)/255`. -/
def Nodereq.strength (nr : Nodereq) : Int := nr.rssi.toNat * 100 / 255

/-- A wireless section, and the nodes the kernel reports on its interface. -/
structure Section where
  wlan : Wireless StaticCfg WpaCfg
  nodes : List Nodereq

namespace Section

variable (s : Section)

/-- The interface as the string that starts at `&wlan->interface[0]`. -/
def interface : CStr := CStr.read s.wlan.interface

/-- `ieee80211_scan(&wlan->interface[0], 1, &wlan->nwid, myre)`. -/
def scan : Option (List Nodereq) := ieee80211Scan [s.wlan.nwid] s.nodes

end Section

/-! ## `monitor_wireless` -/

inductive Call
  | up (s : Section)
  | down (s : Section)
  | connectWireless (s : Section)

/-- How the loops end: with the next network or after the last one, by connecting
the section at a position in list order, or in the scan. -/
inductive Ending
  | next
  | connect (i : Nat)
  | crash
  deriving DecidableEq

def Ending.shift (k : Nat) : Ending → Ending
  | .connect i => .connect (i + k)
  | e => e

/-- The loop over the sections of a network. The test of the BSSID compares two
pointers, to the section's text and to the buffer of `ether_ntoa`, so that they are
always different. -/
def monitorNetwork : List Section → List Call × Ending
  | [] => ([], .next)
  | s :: rest =>
      match s.scan with
      | none => ([.up s], .crash)
      | some [] =>
          (.up s :: .down s :: (monitorNetwork rest).1, (monitorNetwork rest).2.shift 1)
      | some (nr :: _) =>
          if nr.channel.toNat ≠ s.wlan.channel then ([.up s], .next)
          else if nr.strength < s.wlan.minsignal then ([.up s], .next)
          else if s.wlan.bssid ≠ none then ([.up s], .next)
          else ([.up s, .connectWireless s], .connect 0)

/-- `monitor_wireless`: it returns -1 at the end of the list, and what
`connect_wireless` returns if it connects. -/
def monitorWireless : List (List Section) → List Call × Ending
  | [] => ([], .next)
  | net :: nets =>
      match monitorNetwork net with
      | (calls, .next) =>
          (calls ++ (monitorWireless nets).1, (monitorWireless nets).2.shift net.length)
      | (calls, ending) => (calls, ending)

/-- The sections `connect_wireless` is called on. -/
def connects (calls : List Call) : List Section :=
  calls.filterMap fun
    | .connectWireless s => some s
    | _ => none

/-- The return value, given those of `connect_wireless`; `none` if there is none. -/
def monitorWirelessValue (connectWireless : Section → Int) (nets : List (List Section)) :
    Option Int :=
  match (monitorWireless nets).2 with
  | .next => some (-1)
  | .connect i => nets.flatten[i]?.map connectWireless
  | .crash => none

/-! ## What a scan shows -/

namespace Section

variable (s : Section)

/-- The scan shows an access point of the section's name, or the section has no name
to compare with. -/
def Noticed : Prop := s.scan ≠ some []

/-- The section has no name, and there is an access point. -/
def Crashes : Prop := s.scan = none

/-- The first access point of the section's name has the right channel and is strong
enough, and the section asks for no BSSID. -/
def Accepted : Prop :=
  ∃ nr ∈ s.scan.bind List.head?, (nr.channel.toNat : Int) = s.wlan.channel ∧
    s.wlan.minsignal ≤ nr.strength ∧ s.wlan.bssid = none

instance : Decidable s.Noticed := inferInstanceAs (Decidable (¬_ = _))

instance : Decidable s.Crashes := inferInstanceAs (Decidable (_ = _))

instance : Decidable s.Accepted := by
  unfold Accepted
  infer_instance

theorem Crashes.noticed {s : Section} (h : s.Crashes) : s.Noticed := by
  rw [Noticed, h]
  exact Option.some_ne_none _ |>.symm

theorem Accepted.noticed {s : Section} (h : s.Accepted) : s.Noticed := by
  obtain ⟨nr, hnr, -⟩ := h
  intro hscan
  rw [hscan] at hnr
  cases hnr

theorem Accepted.not_crashes {s : Section} (h : s.Accepted) : ¬s.Crashes := by
  obtain ⟨nr, hnr, -⟩ := h
  intro hscan
  rw [hscan] at hnr
  cases hnr

end Section

/-! ## One section -/

section Cases

variable {s : Section} (rest : List Section)

theorem monitorNetwork_passed (h : ¬s.Noticed) :
    monitorNetwork (s :: rest) =
      (.up s :: .down s :: (monitorNetwork rest).1, (monitorNetwork rest).2.shift 1) := by
  simp [monitorNetwork, not_not.1 h]

theorem monitorNetwork_crash (h : s.Crashes) :
    monitorNetwork (s :: rest) = ([.up s], .crash) := by
  simp [monitorNetwork, show s.scan = none from h]

theorem monitorNetwork_accepted (h : s.Accepted) :
    monitorNetwork (s :: rest) = ([.up s, .connectWireless s], .connect 0) := by
  obtain ⟨nr, hnr, hchannel, hsignal, hbssid⟩ := h
  obtain ⟨_ | ⟨nr', found⟩, hscan, hhead⟩ := Option.bind_eq_some_iff.1 hnr
  · cases hhead
  · cases hhead
    simp [monitorNetwork, hscan, hchannel, hsignal, hbssid]

theorem monitorNetwork_rejected (hnoticed : s.Noticed) (hcrash : ¬s.Crashes)
    (hrejected : ¬s.Accepted) : monitorNetwork (s :: rest) = ([.up s], .next) := by
  obtain ⟨found, hscan⟩ := Option.ne_none_iff_exists'.1 hcrash
  cases found with
  | nil => exact absurd hscan hnoticed
  | cons nr found =>
      simp only [Section.Accepted, hscan, Option.bind_some, List.head?_cons, Option.mem_some_iff,
        exists_eq_left', not_and] at hrejected
      simp only [monitorNetwork, hscan]
      split
      · rfl
      · next hchannel =>
          split
          · rfl
          · next hsignal =>
              rw [if_pos (hrejected (not_not.1 hchannel) (not_lt.1 hsignal))]

/-- The four ways of a section. -/
theorem section_cases (s : Section) :
    ¬s.Noticed ∨ s.Crashes ∨ s.Accepted ∨ (s.Noticed ∧ ¬s.Crashes ∧ ¬s.Accepted) := by
  tauto

end Cases

theorem ieee80211Scan_some (nwid : CStr) (nodes : List Nodereq) :
    ieee80211Scan [some nwid] nodes =
      some (nodes.filter fun nr => nr.isAp && CStr.read nr.nwid = nwid) := by
  induction nodes with
  | nil => rfl
  | cons nr nodes ih =>
      simp only [ieee80211Scan, matchNwids, Option.map_some, ih, List.filter_cons]
      by_cases hap : nr.isAp <;> by_cases hname : CStr.read nr.nwid = nwid <;> simp [hap, hname]

/-- Without a name nothing is found. -/
theorem ieee80211Scan_none {nodes found : List Nodereq}
    (h : ieee80211Scan [none] nodes = some found) : found = [] := by
  induction nodes with
  | nil =>
      cases h
      rfl
  | cons nr nodes ih =>
      rw [ieee80211Scan] at h
      split at h
      · cases h
      · exact ih h

section Eligible

-- Which texts stand for a hardware address.
variable (denotes : CStr → List Byte → Prop)

/-- The scan of the section's interface contains an access point with the section's
name, channel and, if it has one, BSSID, that is strong enough. -/
def Section.Eligible (s : Section) : Prop :=
  ∃ nr ∈ s.nodes, nr.isAp ∧ s.wlan.nwid = some (CStr.read nr.nwid) ∧
    (nr.channel.toNat : Int) = s.wlan.channel ∧ s.wlan.minsignal ≤ nr.strength ∧
    ∀ bssid ∈ s.wlan.bssid, denotes bssid nr.bssid

instance [DecidableRel denotes] (s : Section) : Decidable (s.Eligible denotes) :=
  inferInstanceAs (Decidable (∃ nr ∈ s.nodes, _))

variable {denotes} {s : Section}

theorem Section.Eligible.noticed (h : s.Eligible denotes) : s.Noticed := by
  obtain ⟨nr, hmem, hap, hnwid, -⟩ := h
  rw [Section.Noticed, Section.scan, hnwid, ieee80211Scan_some]
  intro hnil
  have hfound : nr ∈ s.nodes.filter fun r => r.isAp && CStr.read r.nwid = CStr.read nr.nwid :=
    List.mem_filter.2 ⟨hmem, by simp [hap]⟩
  rw [Option.some.inj hnil] at hfound
  cases hfound

theorem Section.Accepted.eligible (h : s.Accepted) : s.Eligible denotes := by
  obtain ⟨nr, hnr, hchannel, hsignal, hbssid⟩ := h
  cases hnwid : s.wlan.nwid with
  | none =>
      obtain ⟨found, hscan, hhead⟩ := Option.bind_eq_some_iff.1 hnr
      rw [Section.scan, hnwid] at hscan
      rw [ieee80211Scan_none hscan] at hhead
      cases hhead
  | some nwid =>
      rw [Section.scan, hnwid, ieee80211Scan_some, Option.bind_some] at hnr
      have hmem := List.mem_of_mem_head? hnr
      rw [List.mem_filter, Bool.and_eq_true, decide_eq_true_eq] at hmem
      obtain ⟨hmem, hap, rfl⟩ := hmem
      refine ⟨nr, hmem, hap, hnwid, hchannel, hsignal, ?_⟩
      intro bssid hb
      rw [hbssid] at hb
      cases hb

/-! ## Which section is connected -/

/-- The search treats a network as it should: its first section that is noticed has a
name, and it is accepted unless no section from there on is eligible. -/
def Decisive (denotes : CStr → List Byte → Prop) (net : List Section) : Prop :=
  ∀ passed s rest, net = passed ++ s :: rest → (∀ t ∈ passed, ¬t.Noticed) → s.Noticed →
    ¬s.Crashes ∧ (s.Accepted ∨ ∀ t ∈ s :: rest, ¬t.Eligible denotes)

variable [DecidableRel denotes]

/-- The ending the search should have: it connects the first eligible section. -/
def expected (denotes : CStr → List Byte → Prop) [DecidableRel denotes] (l : List Section) :
    Ending :=
  match l.findIdx? (·.Eligible denotes) with
  | some i => .connect i
  | none => .next

theorem Ending.shift_injective (k : Nat) : Function.Injective (Ending.shift k) := by
  intro a b h
  cases a <;> cases b <;> simp_all [Ending.shift]

theorem expected_cons_of_not {l : List Section} (h : ¬s.Eligible denotes) :
    expected denotes (s :: l) = (expected denotes l).shift 1 := by
  simp only [expected, List.findIdx?_cons, decide_eq_false h, Bool.false_eq_true, ↓reduceIte]
  cases l.findIdx? (·.Eligible denotes) <;> rfl

theorem expected_cons_of_eligible {l : List Section} (h : s.Eligible denotes) :
    expected denotes (s :: l) = .connect 0 := by
  simp [expected, List.findIdx?_cons, h]

theorem expected_eq_next_iff {l : List Section} :
    expected denotes l = .next ↔ ∀ s ∈ l, ¬s.Eligible denotes := by
  rw [expected]
  cases h : l.findIdx? (·.Eligible denotes) with
  | none => simpa using List.findIdx?_eq_none_iff.1 h
  | some i =>
      obtain ⟨hi, helig, -⟩ := List.findIdx?_eq_some_iff_getElem.1 h
      simp only [reduceCtorEq, false_iff, not_forall, not_not]
      exact ⟨l[i], List.getElem_mem hi, of_decide_eq_true helig⟩

theorem expected_append_of_not {l l' : List Section} (h : ∀ s ∈ l, ¬s.Eligible denotes) :
    expected denotes (l ++ l') = (expected denotes l').shift l.length := by
  induction l with
  | nil =>
      rw [List.nil_append]
      cases expected denotes l' <;> rfl
  | cons s l ih =>
      rw [List.cons_append, expected_cons_of_not (h s List.mem_cons_self),
        ih fun t ht => h t (List.mem_cons_of_mem s ht)]
      cases expected denotes l' <;> simp [Ending.shift, Nat.add_assoc]

theorem expected_append_of_connect {l l' : List Section} {i : Nat}
    (h : expected denotes l = .connect i) : expected denotes (l ++ l') = .connect i := by
  rw [expected] at h ⊢
  rw [List.findIdx?_append]
  cases hfind : l.findIdx? (·.Eligible denotes) with
  | none =>
      rw [hfind] at h
      cases h
  | some j =>
      rw [hfind] at h
      simpa using h

/-- A search that connects within a network does so rightly. -/
theorem expected_of_connect {net : List Section} {i : Nat}
    (h : (monitorNetwork net).2 = .connect i) : expected denotes net = .connect i := by
  induction net generalizing i with
  | nil => cases h
  | cons s rest ih =>
      rcases section_cases s with hpassed | hcrash | haccepted | ⟨hnoticed, hcrash, hrejected⟩
      · rw [monitorNetwork_passed rest hpassed] at h
        rw [expected_cons_of_not fun helig => hpassed helig.noticed]
        cases hrest : (monitorNetwork rest).2 with
        | connect j =>
            rw [hrest] at h
            rw [ih hrest]
            exact h
        | next | crash =>
            rw [hrest] at h
            cases h
      · rw [monitorNetwork_crash rest hcrash] at h
        cases h
      · rw [monitorNetwork_accepted rest haccepted] at h
        rw [expected_cons_of_eligible haccepted.eligible]
        exact h
      · rw [monitorNetwork_rejected rest hnoticed hcrash hrejected] at h
        cases h

theorem monitorNetwork_expected_iff (net : List Section) :
    (monitorNetwork net).2 = expected denotes net ↔ Decisive denotes net := by
  induction net with
  | nil => simp [Decisive, monitorNetwork, expected]
  | cons s rest ih =>
      have hsplit : Decisive denotes (s :: rest) ↔
          (s.Noticed → ¬s.Crashes ∧ (s.Accepted ∨ ∀ t ∈ s :: rest, ¬t.Eligible denotes)) ∧
            (¬s.Noticed → Decisive denotes rest) := by
        rw [Decisive, forall_split_cons]
        simp only [List.not_mem_nil, false_implies, implies_true, forall_const, List.mem_cons,
          forall_eq_or_imp, Decisive]
        grind
      rw [hsplit]
      rcases section_cases s with hpassed | hcrash | haccepted | ⟨hnoticed, hcrash, hrejected⟩
      · have helig : ¬s.Eligible denotes := fun helig => hpassed helig.noticed
        rw [monitorNetwork_passed rest hpassed, expected_cons_of_not helig,
          (Ending.shift_injective 1).eq_iff, ih]
        simp [hpassed]
      · rw [monitorNetwork_crash rest hcrash]
        simp only [hcrash.noticed, hcrash, not_true_eq_false, false_and, imp_false, iff_false]
        rw [expected]
        split <;> simp
      · rw [monitorNetwork_accepted rest haccepted,
          expected_cons_of_eligible haccepted.eligible]
        simp [haccepted, haccepted.noticed, haccepted.not_crashes]
      · rw [monitorNetwork_rejected rest hnoticed hcrash hrejected, eq_comm,
          expected_eq_next_iff]
        simp [hnoticed, hcrash, hrejected]

theorem expected_lt {l : List Section} {i : Nat} (h : expected denotes l = .connect i) :
    i < l.length := by
  rw [expected] at h
  cases hfind : l.findIdx? (·.Eligible denotes) with
  | none =>
      rw [hfind] at h
      cases h
  | some j =>
      rw [hfind] at h
      cases h
      exact (List.findIdx?_eq_some_iff_getElem.1 hfind).1

theorem expected_ne_crash (l : List Section) : expected denotes l ≠ .crash := by
  rw [expected]
  split <;> simp

/-- The search ends as expected exactly if it treats every network that it should get
to in the right way. -/
theorem monitorWireless_expected_iff (nets : List (List Section)) :
    (monitorWireless nets).2 = expected denotes nets.flatten ↔
      ∀ passed net rest, nets = passed ++ net :: rest →
        (∀ s ∈ passed.flatten, ¬s.Eligible denotes) → Decisive denotes net := by
  induction nets with
  | nil => simp [monitorWireless, expected]
  | cons net nets ih =>
      rw [forall_split_cons]
      simp only [List.flatten_nil, List.not_mem_nil, false_implies, implies_true, forall_const,
        List.flatten_cons, List.mem_append, or_imp, forall_and]
      rw [← monitorNetwork_expected_iff, monitorWireless]
      cases hnet : monitorNetwork net with
      | mk calls ending =>
          cases ending with
          | next =>
              cases hexp : expected denotes net with
              | next =>
                  have hnone := expected_eq_next_iff.1 hexp
                  rw [expected_append_of_not hnone, (Ending.shift_injective _).eq_iff, ih]
                  simp only [true_and]
                  exact ⟨fun h passed net' rest heq hp => h passed net' rest heq hp.2,
                    fun h passed net' rest heq hp => h passed net' rest heq ⟨hnone, hp⟩⟩
              | connect i =>
                  rw [expected_append_of_connect hexp]
                  have hlt := expected_lt hexp
                  simp only [reduceCtorEq, false_and, iff_false]
                  cases (monitorWireless nets).2 <;> simp [Ending.shift]
                  omega
              | crash => exact absurd hexp (expected_ne_crash net)
          | connect i =>
              have hexp : expected denotes net = .connect i :=
                expected_of_connect (by rw [hnet])
              rw [expected_append_of_connect hexp, hexp]
              simp only [true_and, true_iff]
              intro passed net' rest heq hp
              refine absurd (expected_eq_next_iff.2 hp.1) ?_
              rw [hexp]
              simp
          | crash =>
              simp only [(expected_ne_crash _).symm, false_and]

end Eligible

theorem connects_append (a b : List Call) : connects (a ++ b) = connects a ++ connects b :=
  List.filterMap_append

/-- `connect_wireless` is called on the section the search ends with, and no other. -/
theorem connects_monitorNetwork (net : List Section) :
    connects (monitorNetwork net).1 =
      match (monitorNetwork net).2 with
      | .connect i => net[i]?.toList
      | _ => [] := by
  induction net with
  | nil => rfl
  | cons s rest ih =>
      rcases section_cases s with hpassed | hcrash | haccepted | ⟨hnoticed, hcrash, hrejected⟩
      · rw [monitorNetwork_passed rest hpassed]
        change connects (monitorNetwork rest).1 = _
        rw [ih]
        cases (monitorNetwork rest).2 <;> rfl
      · rw [monitorNetwork_crash rest hcrash]
        rfl
      · rw [monitorNetwork_accepted rest haccepted]
        rfl
      · rw [monitorNetwork_rejected rest hnoticed hcrash hrejected]
        rfl

theorem monitorNetwork_lt {net : List Section} {i : Nat}
    (h : (monitorNetwork net).2 = .connect i) : i < net.length := by
  have hexp : expected (fun _ _ => True) net = .connect i := expected_of_connect h
  exact expected_lt hexp

theorem connects_monitorWireless (nets : List (List Section)) :
    connects (monitorWireless nets).1 =
      match (monitorWireless nets).2 with
      | .connect i => nets.flatten[i]?.toList
      | _ => [] := by
  induction nets with
  | nil => rfl
  | cons net nets ih =>
      have hnet := connects_monitorNetwork net
      rw [monitorWireless]
      cases hres : monitorNetwork net with
      | mk calls ending =>
          rw [hres] at hnet
          cases ending with
          | next =>
              simp only [connects_append, ih]
              rw [show connects calls = [] from hnet]
              cases (monitorWireless nets).2 with
              | next | crash => rfl
              | connect i =>
                  simp only [Ending.shift, List.nil_append, List.flatten_cons]
                  rw [List.getElem?_append_right (by omega), Nat.add_sub_cancel]
          | connect i =>
              have hlt : i < net.length := monitorNetwork_lt (by rw [hres])
              simp only [List.flatten_cons]
              rw [List.getElem?_append_left hlt]
              exact hnet
          | crash => exact hnet

section First

variable (denotes : CStr → List Byte → Prop) [DecidableRel denotes]

theorem getElem?_expected {l : List Section} {i : Nat} (h : expected denotes l = .connect i) :
    l[i]? = l.find? (·.Eligible denotes) := by
  rw [expected] at h
  cases hfind : l.findIdx? (·.Eligible denotes) with
  | none =>
      rw [hfind] at h
      cases h
  | some j =>
      rw [hfind] at h
      cases h
      obtain ⟨hi, helig, hfirst⟩ := List.findIdx?_eq_some_iff_getElem.1 hfind
      rw [List.getElem?_eq_getElem hi, eq_comm, List.find?_eq_some_iff_getElem]
      exact ⟨helig, i, hi, rfl, fun j hj => by simpa using hfirst j hj⟩

end First

/-- A section on `iwn0` for a network of that name, on channel 1 with a minimal signal. -/
def sectionFor (nwid : String) (minsignal : Int) (nodes : List Nodereq) : Section where
  wlan := { Wireless.zero with
    interface := strncpy interfaceSize (.lit "iwn0")
    nwid := some (.lit nwid)
    channel := 1
    minsignal }
  nodes

/-- An access point of that name on channel 1. -/
def accessPoint (nwid : String) (rssi : UInt8) : Nodereq where
  bssid := [0, 1, 2, 3, 4, 5]
  nwid := asciiBytes nwid ++ [0]
  channel := 1
  rssi
  flags := 1

/-- Two sections of one network, the first of which is found but too weak. -/
def weakFirst : List (List Section) :=
  [[sectionFor "home" 50 [accessPoint "home" 10], sectionFor "work" 0 [accessPoint "work" 200]]]

end Ifconfigd.Monitor
