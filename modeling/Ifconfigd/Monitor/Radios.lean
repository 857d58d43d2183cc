import Ifconfigd.Monitor.Wireless

/-!
# Which interfaces a search leaves on

`monitor_wireless` switches an interface on before each scan. It is switched off
again only if the scan did not show the section; a section that was found but not
accepted leaves it on. The sections the search visits, and what becomes of each, are
read off the scans; the commands follow from them.
-/

namespace Ifconfigd.Monitor

open CLib

/-- The interface the call is about. -/
def Call.interface : Call → CStr
  | .up s | .down s | .connectWireless s => s.interface

/-- `up` is `some true`, `down` is `some false`. -/
def Call.switch : Call → Option Bool
  | .up _ => some true
  | .down _ => some false
  | .connectWireless _ => none

/-- The last `up` or `down` command for an interface. -/
def lastSwitch (interface : CStr) (calls : List Call) : Option Bool :=
  ((calls.filter fun c => c.interface = interface).filterMap Call.switch).getLast?

/-- `connect_wireless` was called for a section on the interface. -/
def ConnectedOn (interface : CStr) (calls : List Call) : Prop :=
  ∃ s ∈ connects calls, s.interface = interface

/-- When the search returns -1 every interface it switched on is off, and in any case
an interface is left on only if a section on it was connected. -/
def RadiosOff (nets : List (List Section)) : Prop :=
  ((monitorWireless nets).2 = .next → ∀ s, Call.up s ∈ (monitorWireless nets).1 →
      lastSwitch s.interface (monitorWireless nets).1 = some false) ∧
    ∀ interface, lastSwitch interface (monitorWireless nets).1 = some true →
      ConnectedOn interface (monitorWireless nets).1

/-! ## The visits of a search -/

/-- What becomes of a section: it was not found, it was found and kept the search from
going on in its network, or it was connected. -/
inductive Fate
  | missed
  | blocked
  | connected
  deriving DecidableEq

def Section.fate (s : Section) : Fate :=
  if ¬s.Noticed then .missed else if s.Accepted then .connected else .blocked

/-- The sections of a network up to the first that is noticed. -/
def visitsIn : List Section → List Section
  | [] => []
  | s :: rest => if s.Noticed then [s] else s :: visitsIn rest

/-- The search does not go on behind the network: a section was connected, or had no
name to compare. -/
def Last (net : List Section) : Prop := ∃ s ∈ visitsIn net, s.Accepted ∨ s.Crashes

instance (net : List Section) : Decidable (Last net) :=
  inferInstanceAs (Decidable (∃ s ∈ visitsIn net, _))

/-- The sections the search visits. -/
def visits : List (List Section) → List Section
  | [] => []
  | net :: nets => if Last net then visitsIn net else visitsIn net ++ visits nets

/-- The commands of a visit. -/
def Section.calls (s : Section) : List Call :=
  match s.fate with
  | .missed => [.up s, .down s]
  | .blocked => [.up s]
  | .connected => [.up s, .connectWireless s]

/-- After every section that blocks the search in its network comes another one on the
same interface that does not. -/
def BlockedThenFreed (l : List Section) : Prop :=
  ∀ passed s rest, l = passed ++ s :: rest → s.fate = .blocked →
    ∃ t ∈ rest, t.interface = s.interface ∧ t.fate ≠ .blocked

section Fate

variable {s : Section}

theorem fate_missed (h : ¬s.Noticed) : s.fate = .missed := by
  simp [Section.fate, h]

theorem fate_connected (h : s.Accepted) : s.fate = .connected := by
  simp [Section.fate, h, h.noticed]

theorem fate_blocked (hnoticed : s.Noticed) (h : ¬s.Accepted) : s.fate = .blocked := by
  simp [Section.fate, h, hnoticed]

theorem accepted_of_fate (h : s.fate = .connected) : s.Accepted := by
  rw [Section.fate] at h
  split_ifs at h with hmissed haccepted
  exact haccepted

end Fate

/-! ## The commands of a search -/

theorem visitsIn_passed {s : Section} (rest : List Section) (h : ¬s.Noticed) :
    visitsIn (s :: rest) = s :: visitsIn rest := if_neg h

theorem visitsIn_noticed {s : Section} (rest : List Section) (h : s.Noticed) :
    visitsIn (s :: rest) = [s] := if_pos h

theorem calls_monitorNetwork (net : List Section) :
    (monitorNetwork net).1 = (visitsIn net).flatMap Section.calls := by
  induction net with
  | nil => rfl
  | cons s rest ih =>
      rcases section_cases s with hpassed | hcrash | haccepted | ⟨hnoticed, hcrash, hrejected⟩
      · rw [monitorNetwork_passed rest hpassed, visitsIn_passed rest hpassed, List.flatMap_cons,
          Section.calls, fate_missed hpassed, ih]
        rfl
      · have hnot : ¬s.Accepted := fun haccepted => haccepted.not_crashes hcrash
        rw [monitorNetwork_crash rest hcrash, visitsIn_noticed rest hcrash.noticed]
        simp [Section.calls, fate_blocked hcrash.noticed hnot]
      · rw [monitorNetwork_accepted rest haccepted, visitsIn_noticed rest haccepted.noticed]
        simp [Section.calls, fate_connected haccepted]
      · rw [monitorNetwork_rejected rest hnoticed hcrash hrejected,
          visitsIn_noticed rest hnoticed]
        simp [Section.calls, fate_blocked hnoticed hrejected]

theorem monitorNetwork_next_iff (net : List Section) :
    (monitorNetwork net).2 = .next ↔ ¬Last net := by
  induction net with
  | nil => simp [monitorNetwork, Last, visitsIn]
  | cons s rest ih =>
      rcases section_cases s with hpassed | hcrash | haccepted | ⟨hnoticed, hcrash, hrejected⟩
      · have haccepted : ¬s.Accepted := fun h => hpassed h.noticed
        have hcrash : ¬s.Crashes := fun h => hpassed h.noticed
        have hlast : Last (s :: rest) ↔ Last rest := by
          simp [Last, visitsIn_passed rest hpassed, haccepted, hcrash]
        rw [monitorNetwork_passed rest hpassed, hlast, ← ih]
        cases (monitorNetwork rest).2 <;> simp [Ending.shift]
      · rw [monitorNetwork_crash rest hcrash]
        simp [Last, visitsIn_noticed rest hcrash.noticed, hcrash]
      · rw [monitorNetwork_accepted rest haccepted]
        simp [Last, visitsIn_noticed rest haccepted.noticed, haccepted]
      · rw [monitorNetwork_rejected rest hnoticed hcrash hrejected]
        simp [Last, visitsIn_noticed rest hnoticed, hcrash, hrejected]

theorem calls_monitorWireless (nets : List (List Section)) :
    (monitorWireless nets).1 = (visits nets).flatMap Section.calls := by
  induction nets with
  | nil => rfl
  | cons net nets ih =>
      have hcalls := calls_monitorNetwork net
      have hnext := monitorNetwork_next_iff net
      rw [monitorWireless, visits]
      cases hnet : monitorNetwork net with
      | mk calls ending =>
          rw [hnet] at hcalls hnext
          cases ending with
          | next =>
              simp only [if_neg (hnext.1 rfl), List.flatMap_append, ← ih, ← hcalls]
          | connect i | crash =>
              have hlast : Last net := by
                by_contra hnot
                cases hnext.2 hnot
              simp only [if_pos hlast, ← hcalls]

/-- Within a network only the last visit connects. -/
theorem eq_nil_of_visitsIn {net passed rest : List Section} {s : Section}
    (h : visitsIn net = passed ++ s :: rest) (hs : s.Noticed) : rest = [] := by
  induction net generalizing passed with
  | nil => simp [visitsIn] at h
  | cons t net ih =>
      by_cases ht : t.Noticed
      · rw [visitsIn_noticed net ht] at h
        cases passed <;> simp_all
      · rw [visitsIn_passed net ht] at h
        cases passed with
        | nil =>
            cases h
            exact absurd hs ht
        | cons t' passed => exact ih (List.cons.inj h).2

/-- A connected section is the last one visited. -/
theorem eq_nil_of_visits {nets : List (List Section)} {passed rest : List Section} {s : Section}
    (h : visits nets = passed ++ s :: rest) (hs : s.fate = .connected) : rest = [] := by
  have haccepted := accepted_of_fate hs
  induction nets generalizing passed with
  | nil => simp [visits] at h
  | cons net nets ih =>
      rw [visits] at h
      split at h
      · exact eq_nil_of_visitsIn h haccepted.noticed
      · next hlast =>
          rcases List.append_eq_append_iff.1 h with ⟨mid, -, hmid⟩ | ⟨mid, hmid, hrest⟩
          · exact ih hmid
          · cases mid with
            | nil =>
                have hvisits : visits nets = [] ++ s :: rest := by simpa using hrest.symm
                exact ih hvisits
            | cons t mid =>
                rw [List.cons_append] at hrest
                obtain ⟨rfl, -⟩ := List.cons.inj hrest
                exact absurd ⟨s, by rw [hmid]; simp, .inl haccepted⟩ hlast

/-! ## The state of the interfaces -/

theorem lastSwitch_append (interface : CStr) (a b : List Call) :
    lastSwitch interface (a ++ b) = (lastSwitch interface b).or (lastSwitch interface a) := by
  simp [lastSwitch, List.getLast?_append]

theorem lastSwitch_calls (s : Section) :
    lastSwitch s.interface s.calls = some (decide (s.fate ≠ .missed)) := by
  rw [Section.calls]
  cases s.fate <;> simp [lastSwitch, Call.interface, Call.switch, List.filterMap_cons]

theorem lastSwitch_calls_of_ne {s : Section} {interface : CStr} (h : s.interface ≠ interface) :
    lastSwitch interface s.calls = none := by
  rw [Section.calls]
  cases s.fate <;> simp [lastSwitch, Call.interface, h]

section Visits

variable {interface : CStr} {l : List Section}

/-- An interface that was switched at all was switched by a visit. -/
theorem exists_of_lastSwitch {b : Bool}
    (h : lastSwitch interface (l.flatMap Section.calls) = some b) :
    ∃ s ∈ l, s.interface = interface ∧ (s.fate ≠ .missed ↔ b = true) := by
  induction l with
  | nil => cases h
  | cons s l ih =>
      rw [List.flatMap_cons, lastSwitch_append] at h
      cases hl : lastSwitch interface (l.flatMap Section.calls) with
      | some b' =>
          rw [hl] at h
          cases h
          obtain ⟨t, ht, hon⟩ := ih hl
          exact ⟨t, List.mem_cons_of_mem s ht, hon⟩
      | none =>
          rw [hl, Option.none_or] at h
          by_cases hs : s.interface = interface
          · subst hs
            rw [lastSwitch_calls] at h
            cases h
            exact ⟨s, List.mem_cons_self, rfl, by simp⟩
          · rw [lastSwitch_calls_of_ne hs] at h
            cases h

theorem lastSwitch_ne_none {s : Section} (hs : s ∈ l) :
    lastSwitch s.interface (l.flatMap Section.calls) ≠ none := by
  induction l with
  | nil => cases hs
  | cons t l ih =>
      rw [List.flatMap_cons, lastSwitch_append, Ne, Option.or_eq_none_iff]
      rintro ⟨htail, hhead⟩
      rcases List.mem_cons.1 hs with rfl | hs
      · rw [lastSwitch_calls] at hhead
        cases hhead
      · exact ih hs htail

theorem connectedOn_iff :
    ConnectedOn interface (l.flatMap Section.calls) ↔
      ∃ s ∈ l, s.fate = .connected ∧ s.interface = interface := by
  have hcalls : ∀ s : Section, connects s.calls = if s.fate = .connected then [s] else [] := by
    intro s
    rw [Section.calls]
    cases s.fate <;> rfl
  have hconnects : connects (l.flatMap Section.calls) = l.filter (·.fate = .connected) := by
    induction l with
    | nil => rfl
    | cons s l ih =>
        rw [List.flatMap_cons, connects_append, ih, hcalls, List.filter_cons]
        by_cases hs : s.fate = .connected <;> simp [hs]
  simp [ConnectedOn, hconnects, and_assoc]

/-- The interfaces left on are those of connected sections exactly if every section
that blocks is followed by one on its interface that does not. -/
theorem left_on_iff
    (hlast : ∀ passed s rest, l = passed ++ s :: rest → s.fate = .connected → rest = []) :
    (∀ interface, lastSwitch interface (l.flatMap Section.calls) = some true →
        ∃ s ∈ l, s.fate = .connected ∧ s.interface = interface) ↔ BlockedThenFreed l := by
  induction l with
  | nil => simp [BlockedThenFreed, lastSwitch]
  | cons s l ih =>
      rw [BlockedThenFreed, forall_split_cons]
      obtain ⟨hnil, hlast⟩ := (forall_split_cons s l).1 hlast
      specialize ih hlast
      simp only [List.flatMap_cons, lastSwitch_append, List.mem_cons, or_and_right, exists_or,
        exists_eq_left]
      constructor
      · intro h
        -- The later visits leave on what they connect, for a connected section comes last.
        have htail : ∀ interface, lastSwitch interface (l.flatMap Section.calls) = some true →
            ∃ t ∈ l, t.fate = .connected ∧ t.interface = interface := by
          intro interface hon
          refine (h interface (by rw [hon]; rfl)).resolve_left ?_
          rintro ⟨hfate, -⟩
          rw [hnil hfate] at hon
          cases hon
        refine ⟨?_, ih.1 htail⟩
        intro hfate
        cases hsw : lastSwitch s.interface (l.flatMap Section.calls) with
        | none =>
            have hon := h s.interface (by rw [hsw, lastSwitch_calls, hfate]; rfl)
            rcases hon with ⟨hconn, -⟩ | ⟨t, ht, -, hint⟩
            · rw [hfate] at hconn
              cases hconn
            · rw [← hint] at hsw
              exact absurd hsw (lastSwitch_ne_none ht)
        | some b =>
            cases b with
            | false =>
                obtain ⟨t, ht, hint, hmissed⟩ := exists_of_lastSwitch hsw
                refine ⟨t, ht, hint, ?_⟩
                intro hblocked
                simp [hblocked] at hmissed
            | true =>
                obtain ⟨t, ht, hconn, hint⟩ := htail _ hsw
                exact ⟨t, ht, hint, by rw [hconn]; simp⟩
      · rintro ⟨hhead, htail⟩ interface hon
        cases hsw : lastSwitch interface (l.flatMap Section.calls) with
        | some b =>
            rw [hsw] at hon
            cases hon
            exact .inr (ih.2 htail interface hsw)
        | none =>
            rw [hsw, Option.none_or] at hon
            by_cases hint : s.interface = interface
            · subst hint
              rw [lastSwitch_calls, Option.some.injEq, decide_eq_true_eq] at hon
              left
              refine ⟨?_, rfl⟩
              by_contra hconn
              have hblocked : s.fate = .blocked := by
                cases hfate : s.fate <;> simp_all
              obtain ⟨t, ht, htint, -⟩ := hhead hblocked
              rw [← htint] at hsw
              exact lastSwitch_ne_none ht hsw
            · rw [lastSwitch_calls_of_ne hint] at hon
              cases hon

end Visits

theorem connects_of_next {nets : List (List Section)} (h : (monitorWireless nets).2 = .next) :
    connects (monitorWireless nets).1 = [] := by
  rw [connects_monitorWireless, h]

end Ifconfigd.Monitor
