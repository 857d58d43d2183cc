import Ifconfigd.Lib.Yacc.Steps
import Ifconfigd.Parse.Automaton
import Ifconfigd.Parse.Invariants

/-!
# The sections options belong to

The options of a section are stored through global pointers, which the action in the
middle of the section's rule sets. The state after that action marks the section on
the stack: as long as it is there, what is reduced above it lies between the braces
of the section, whatever errors were met on the way.

A run is taken over any source of tokens, so that every sequence of tokens with any
values is covered.
-/

namespace Ifconfigd.Parse

open CLib Yacc

/-- A client with the actions of the grammar whose tokens come from anywhere. -/
structure Feeds (fs : FileSystem) (c : Client Token Val Yy) : Prop where
  lex : ∀ y, ∃ l, (c.lex y).2 = y.withLex l
  action : c.action = (client fs).action
  syntaxError : ∀ y, ∃ l, c.syntaxError y = y.withLex l

theorem feeds_client (fs : FileSystem) : Feeds fs (client fs) where
  lex y := ⟨(yylex y.lex).2, rfl⟩
  action := rfl
  syntaxError y := ⟨yyerror .syntaxError y.lex, rfl⟩

theorem action_of_feeds {fs : FileSystem} {c : Client Token Val Yy} (hc : Feeds fs c) (n : Nat)
    (vs : List Val) (y : Yy) : c.action n vs y = action fs n vs (defaultVal n vs) y := by
  rw [hc.action]
  rfl

/-! ## The marks on the stack -/

/-- The states after the actions of `NETWORK STRING`, `ETHERNETNAME STRING`,
`WIRELESSNAME STRING` and `WPA`. -/
abbrev networkMark : Nat := 23

abbrev ethernetMark : Nat := 41

abbrev wirelessMark : Nat := 42

abbrev wpaMark : Nat := 108

/-- The marks with the symbols and the rules of their actions. -/
def marks : List (Nat × Nonterm × Nat) :=
  [(networkMark, .networkAction, 20), (ethernetMark, .ethernetAction, 27),
    (wirelessMark, .wirelessAction, 42), (wpaMark, .wpaAction, 63)]

/-- The rules that are not reduced above a mark. -/
def outside : List (Nat × List Nat) :=
  [(networkMark, [20, 21]), (ethernetMark, [20, 21, 27, 28, 42, 43, 56]),
    (wirelessMark, [20, 21, 27, 28, 42, 43]), (wpaMark, [20, 21, 27, 28, 42, 43, 56])]

theorem above_closed :
    (outside.all fun o => closedBut [] (above o.1) && (above o.1).testBit o.1 &&
      !(above o.1).testBit 1) = true := by
  decide +kernel

def belowOutside (o : Nat × List Nat) : Bool :=
  (List.range rows.length).all fun st => ((reductions st).filter o.2.contains).all fun n =>
    (below (tables.len n) [st]).all fun st' => !(above o.1).testBit st'

theorem outside_below : outside.all belowOutside = true := by
  decide +kernel

section Marks

variable {stack : List (Nat × Val)} {o : Nat × List Nat}

theorem above_of_mark (h : Path Edge stack) (ho : o ∈ outside)
    (hmark : ∃ e ∈ stack, e.1 = o.1) : (above o.1).testBit (top stack) = true := by
  obtain ⟨e, he, heq⟩ := hmark
  have hall := List.all_eq_true.1 above_closed o ho
  simp only [Bool.and_eq_true] at hall
  refine testBit_top_of_mem h hall.1.1 he ?_
  rw [heq]
  exact hall.1.2

/-- No such rule is reduced while the mark is below its right side. -/
theorem not_mem_outside (h : Path Edge stack) {n : Nat} (hn : tables.Reduces (top stack) n)
    (ho : o ∈ outside) (hmark : ∃ e ∈ stack.drop (tables.len n), e.1 = o.1) : n ∉ o.2 := by
  intro hmem
  have hbelow := mem_below h (len_le_of_reduces h hn) (List.mem_singleton.2 rfl)
  have hall := List.all_eq_true.1 outside_below o ho
  simp only [belowOutside, List.all_eq_true] at hall
  have hnot := hall _ (List.mem_range.2 (lt_length_of_reduces hn)) n
    (List.mem_filter.2 ⟨mem_reductions hn, List.contains_iff_mem.2 hmem⟩) _ hbelow
  rw [above_of_mark (h.drop _) ho hmark] at hnot
  cases hnot

/-- The state that shifts the `error` token. -/
theorem shiftError_eq_one {st st' : Nat} (h : tables.shiftError st = some st') : st = 1 := by
  have hall : ∀ st < rows.length, (row st).error ≠ none → st = 1 := by decide +kernel
  by_contra hne
  by_cases hst : st < rows.length
  · refine hne (hall st hst ?_)
    rw [show (row st).error = some st' from h]
    simp
  · have hrow : row st = ⟨none, [], [], none, []⟩ := List.getD_eq_default _ _ (by omega)
    have herror : (row st).error = some st' := h
    rw [hrow] at herror
    cases herror

theorem popToError_top {rest : List (Nat × Val)} {st : Nat}
    (h : popToError tables stack = some (rest, st)) :
    tables.shiftError (top rest) = some st ∧ rest <:+ stack := by
  induction stack with
  | nil =>
      rw [popToError, Option.map_eq_some_iff] at h
      obtain ⟨st', hst', heq⟩ := h
      cases heq
      exact ⟨hst', List.suffix_refl _⟩
  | cons e stack ih =>
      rw [popToError] at h
      split at h
      · next st' hst' =>
          cases h
          exact ⟨hst', List.suffix_refl _⟩
      · obtain ⟨htop, hsuffix⟩ := ih h
        exact ⟨htop, hsuffix.trans (List.suffix_cons _ _)⟩

/-- No mark survives the recovery from an error. -/
theorem no_mark_after_error (h : Path Edge stack) {rest : List (Nat × Val)} {st : Nat}
    (hpop : popToError tables stack = some (rest, st)) (ho : o ∈ outside) :
    ∀ e ∈ rest, ¬e.1 = o.1 := by
  intro e he heq
  obtain ⟨htop, k, hk⟩ := popToError_top hpop
  have hpath : Path Edge rest := by
    have hdrop := h.drop k.length
    rwa [← hk, List.drop_left] at hdrop
  have habove := above_of_mark hpath ho ⟨e, he, heq⟩
  rw [shiftError_eq_one htop] at habove
  have hall := List.all_eq_true.1 above_closed o ho
  rw [habove] at hall
  simp at hall

end Marks

/-- Marks are not entered by a token. -/
theorem mark_entered : ∀ st < rows.length, ∀ m ∈ marks.map Prod.fst,
    (∀ e ∈ (row st).shifts, e.2 ≠ m) ∧ (∀ st' ∈ (row st).error, st' ≠ m) := by
  decide +kernel

/-- A mark is entered by its own symbol only, which has one rule. -/
theorem mark_goto :
    (marks.all fun a => (List.range rows.length).all fun st =>
        (row st).gotos.all fun e => e.2 ≠ a.1 || e.1 = a.2.1) = true ∧
      (marks.all fun a => (List.range rules.length).all fun n =>
        (rules.getD n (.grammar, 0)).1 ≠ a.2.1 || n = a.2.2) = true := by
  decide +kernel

theorem mark_ne_shift {m st st' : Nat} {a : Token}
    (hm : m ∈ marks.map Prod.fst) (h : tables.shift st a = some st') :
    ¬st' = m := by
  rintro rfl
  have hmem : (a, st') ∈ (row st).shifts := mem_of_entry h
  have hedge : Edge st st' := (sound Val).shift st a st' h
  have hst : st < rows.length := hedge.lt_length
  exact (mark_entered st hst st' hm).1 _ hmem rfl

theorem mark_ne_shiftError {m st st' : Nat}
    (hm : m ∈ marks.map Prod.fst) (h : tables.shiftError st = some st') :
    ¬st' = m := by
  rintro rfl
  have hedge : Edge st st' := (sound Val).shiftError st st' h
  have hst : st < rows.length := hedge.lt_length
  exact (mark_entered st hst st' hm).2 _ h rfl

theorem rule_of_mark {m n st rule : Nat} {lhs : Nonterm} (hm : (m, lhs, rule) ∈ marks)
    (h : tables.goto n st = m) : n = rule := by
  subst h
  have hne : tables.goto n st ≠ 0 := by
    have hall : ∀ a ∈ marks, a.1 ≠ 0 := by decide
    exact hall _ hm
  obtain ⟨hgoto, hrules⟩ := mark_goto
  simp only [List.all_eq_true] at hgoto hrules
  change (entry (row st).gotos (rules.getD n (.grammar, 0)).1).getD 0 ≠ 0 at hne
  cases hentry : entry (row st).gotos (rules.getD n (.grammar, 0)).1 with
  | none =>
      rw [hentry] at hne
      exact absurd rfl hne
  | some st' =>
      have heq : tables.goto n st = st' := by
        change (entry _ _).getD 0 = st'
        rw [hentry, Option.getD_some]
      rw [heq] at hm
      have hst : st < rows.length := by
        by_contra hst
        have hrow : row st = ⟨none, [], [], none, []⟩ := List.getD_eq_default _ _ (by omega)
        rw [hrow] at hentry
        cases hentry
      have hlhs := hgoto _ hm st (List.mem_range.2 hst) _ (mem_of_entry hentry)
      simp only [ne_eq, not_true_eq_false, decide_false, Bool.false_or, decide_eq_true_eq] at hlhs
      by_cases hn : n < rules.length
      · have hrule := hrules _ hm n (List.mem_range.2 hn)
        simpa only [hlhs, ne_eq, not_true_eq_false, decide_false, Bool.false_or,
          decide_eq_true_eq] using hrule
      · have hdefault : rules.getD n (.grammar, 0) = (.grammar, 0) :=
          List.getD_eq_default _ _ (by omega)
        rw [hdefault] at hlhs
        have hall : ∀ a ∈ marks, a.2.1 ≠ .grammar := by decide
        exact absurd hlhs.symm (hall _ hm)

/-! ## What the actions do to the pointers -/

/-- The pointers to the current section, and what its wireless record points to, are as
they were. -/
structure Kept (y z : Yy) : Prop where
  network : z.network = y.network
  ether : z.ether = y.ether
  wlan : z.wlan = y.wlan
  wpa : z.wpa = y.wpa
  staticonfig : ∀ s, y.staticonfig = some s → z.staticonfig = some s
  wlans : ∀ (p : Nat) (w : Wireless Nat Nat), y.heap.wlans[p]? = some w →
    ∃ w' : Wireless Nat Nat, z.heap.wlans[p]? = some w' ∧
      w'.staticopts = w.staticopts ∧ w'.wpa = w.wpa

theorem Kept.of_same {y z : Yy} (network : z.network = y.network) (ether : z.ether = y.ether)
    (wlan : z.wlan = y.wlan) (wpa : z.wpa = y.wpa) (staticonfig : z.staticonfig = y.staticonfig)
    (wlans : z.heap.wlans = y.heap.wlans) : Kept y z where
  network := network
  ether := ether
  wlan := wlan
  wpa := wpa
  staticonfig s hs := staticonfig.trans hs
  wlans p w hw := ⟨w, by rw [wlans, hw], rfl, rfl⟩

theorem setWlan_kept {y : Yy} (v : Val) {f : Wireless Nat Nat → Wireless Nat Nat}
    (hf : ∀ w, (f w).staticopts = w.staticopts ∧ (f w).wpa = w.wpa) :
    (setWlan v f y).Holds (Kept y) := by
  refine withPtr_holds fun q => ⟨rfl, rfl, rfl, rfl, fun s hs => hs, ?_⟩
  intro p w hw
  simp only [List.getElem?_modify, hw, Option.map_eq_map, Option.map_some]
  split
  · exact ⟨f w, rfl, hf w⟩
  · exact ⟨w, rfl, rfl, rfl⟩

theorem actEthernetDhcp_kept {y : Yy} (v : Val) (yes : Int) :
    (actEthernetDhcp v yes y).Holds (Kept y) := by
  simp only [actEthernetDhcp]
  split
  · split
    · next hnone =>
        refine withPtr_holds fun p => ⟨rfl, rfl, rfl, rfl, ?_, fun p w hw => ⟨w, hw, rfl, rfl⟩⟩
        intro s hs
        rw [hnone] at hs
        cases hs
    · exact withPtr_holds fun p => .of_same rfl rfl rfl rfl rfl rfl
  · exact withPtr_holds fun p => .of_same rfl rfl rfl rfl rfl rfl

theorem actInclude_kept (fs : FileSystem) (v : Val) (name : CStr) (y : Yy) :
    (actInclude fs v name y).Holds (Kept y) := by
  simp only [actInclude]
  split <;> exact .of_same rfl rfl rfl rfl rfl rfl

theorem actGlobal_kept (v : Val) (n : Int) (y : Yy) : (actGlobal v n y).Holds (Kept y) := by
  simp only [actGlobal]
  split <;> exact .of_same rfl rfl rfl rfl rfl rfl

theorem action_kept (fs : FileSystem) {n : Nat} (hn : n ∉ [20, 21, 27, 28, 42, 43, 56])
    (vs : List Val) (v : Val) (y : Yy) : (action fs n vs v y).Holds (Kept y) := by
  unfold action
  split
  all_goals first
    | exact absurd (by decide) hn
    | exact .of_same rfl rfl rfl rfl rfl rfl
    | exact withString_holds fun _ => withPtr_holds fun _ => .of_same rfl rfl rfl rfl rfl rfl
    | exact withNumber_holds fun _ => withPtr_holds fun _ => .of_same rfl rfl rfl rfl rfl rfl
    | exact withString_holds fun _ => withString_holds fun _ => .of_same rfl rfl rfl rfl rfl rfl
    | exact withString_holds fun _ => setWlan_kept _ fun _ => ⟨rfl, rfl⟩
    | exact withNumber_holds fun _ => setWlan_kept _ fun _ => ⟨rfl, rfl⟩
    | exact withNumber_holds fun _ => actEthernetDhcp_kept _ _
    | exact withString_holds fun _ => actInclude_kept fs _ _ y
    | exact withNumber_holds fun _ => actGlobal_kept _ _ y

/-- Within a network, the network stays the same. -/
theorem action_network (fs : FileSystem) {n : Nat} (hn : n ∉ [20, 21]) (vs : List Val) (v : Val)
    (y : Yy) : (action fs n vs v y).Holds fun z => z.network = y.network := by
  by_cases hkept : n ∈ [27, 28, 42, 43, 56]
  · simp only [List.mem_cons, List.not_mem_nil, or_false] at hkept
    rcases hkept with rfl | rfl | rfl | rfl | rfl
    · exact withString_holds fun _ => withPtr_holds fun _ => rfl
    · rfl
    · exact withString_holds fun _ => withPtr_holds fun _ => rfl
    · rfl
    · refine withNumber_holds fun yes => ?_
      simp only [actWirelessDhcp]
      split <;> exact withPtr_holds fun _ => rfl
  · have hn' : n ∉ [20, 21, 27, 28, 42, 43, 56] := by
      simp only [List.mem_cons, List.not_mem_nil, or_false, not_or] at hn hkept ⊢
      omega
    exact (action_kept fs hn' vs v y).mono fun z hz => hz.network

/-- If the action ends in an error, it has only reported it. -/
def OnlyReports (y : Yy) (o : Outcome Val Yy) : Prop := ∀ z, o = .error z → ∃ l, z = y.withLex l

section OnlyReports

variable {y : Yy}

theorem ok_onlyReports {v : Val} {z : Yy} : OnlyReports y (.ok v z) := by
  rintro _ ⟨⟩

theorem withString_onlyReports {vs : List Val} {i : Nat} {k : CStr → Outcome Val Yy}
    (h : ∀ s, OnlyReports y (k s)) : OnlyReports y (withString vs i k) := by
  simp only [withString]
  split
  · exact h _
  · rintro _ ⟨⟩

theorem withNumber_onlyReports {vs : List Val} {i : Nat} {k : Int → Outcome Val Yy}
    (h : ∀ n, OnlyReports y (k n)) : OnlyReports y (withNumber vs i k) := by
  simp only [withNumber]
  split
  · exact h _
  · rintro _ ⟨⟩

theorem withPtr_onlyReports {p : Option Nat} {k : Nat → Outcome Val Yy}
    (h : ∀ i, OnlyReports y (k i)) : OnlyReports y (withPtr p k) := by
  cases p with
  | none => rintro _ ⟨⟩
  | some i => exact h i

theorem yyfail_onlyReports (m : Message) : OnlyReports y (yyfail m y) := by
  rintro _ ⟨⟩
  exact ⟨_, rfl⟩

theorem actInclude_onlyReports (fs : FileSystem) (v : Val) (name : CStr) :
    OnlyReports y (actInclude fs v name y) := by
  rw [actInclude]
  split
  · exact yyfail_onlyReports _
  · exact ok_onlyReports

theorem actGlobal_onlyReports (v : Val) (n : Int) : OnlyReports y (actGlobal v n y) := by
  rw [actGlobal]
  split
  · exact yyfail_onlyReports _
  · exact ok_onlyReports

theorem actNetwork_onlyReports (v : Val) (name : CStr) : OnlyReports y (actNetwork v name y) := by
  rw [actNetwork]
  split
  · exact yyfail_onlyReports _
  · exact ok_onlyReports

theorem actEthernetDhcp_onlyReports (v : Val) (yes : Int) :
    OnlyReports y (actEthernetDhcp v yes y) := by
  rw [actEthernetDhcp]
  split <;> exact withPtr_onlyReports fun _ => ok_onlyReports

theorem actWirelessDhcp_onlyReports (v : Val) (yes : Int) :
    OnlyReports y (actWirelessDhcp v yes y) := by
  rw [actWirelessDhcp]
  split <;> exact withPtr_onlyReports fun _ => ok_onlyReports

theorem action_onlyReports (fs : FileSystem) (n : Nat) (vs : List Val) (v : Val) :
    OnlyReports y (action fs n vs v y) := by
  unfold action
  split
  all_goals first
    | exact ok_onlyReports
    | exact withString_onlyReports fun _ => withPtr_onlyReports fun _ => ok_onlyReports
    | exact withNumber_onlyReports fun _ => withPtr_onlyReports fun _ => ok_onlyReports
    | exact withString_onlyReports fun _ => withString_onlyReports fun _ => ok_onlyReports
    | exact withString_onlyReports fun _ => actInclude_onlyReports fs _ _
    | exact withNumber_onlyReports fun _ => actGlobal_onlyReports _ _
    | exact withString_onlyReports fun _ => actNetwork_onlyReports _ _
    | exact withNumber_onlyReports fun _ => actEthernetDhcp_onlyReports _ _
    | exact withNumber_onlyReports fun _ => actWirelessDhcp_onlyReports _ _

end OnlyReports

/-! ## The scopes -/

/-- The pointers between a header's action, which left `x`, and a later `y`: the network
allocated by the header is the current one. -/
def NetworkOpen (x y : Yy) : Prop :=
  ∃ p, x.network = some p ∧ x.heap.networks.length = p + 1 ∧ y.network = some p

/-- The ethernet section and the static configuration allocated by the header are the
current ones. -/
def EtherOpen (x y : Yy) : Prop :=
  ∃ p s, x.ether = some p ∧ x.heap.ethers.length = p + 1 ∧
    x.staticonfig = some s ∧ x.heap.statics.length = s + 1 ∧
    y.ether = some p ∧ y.staticonfig = some s

/-- The wireless section and the WPA settings allocated by the header are the current
ones, and the current static configuration is the section's. -/
def WlanOpen (x y : Yy) : Prop :=
  ∃ p w s, x.wlan = some p ∧ x.heap.wlans.length = p + 1 ∧
    x.wpa = some w ∧ x.heap.wpas.length = w + 1 ∧
    y.wlan = some p ∧ y.wpa = some w ∧ y.staticonfig = some s ∧
    ∃ wlan : Wireless Nat Nat, y.heap.wlans[p]? = some wlan ∧
      wlan.staticopts = some s ∧ wlan.wpa = some w

section Scopes

variable {x y z : Yy}

theorem NetworkOpen.kept (h : NetworkOpen x y) (hk : z.network = y.network) :
    NetworkOpen x z := by
  obtain ⟨p, hx, hlen, hy⟩ := h
  exact ⟨p, hx, hlen, hk.trans hy⟩

theorem EtherOpen.kept (h : EtherOpen x y) (hk : Kept y z) : EtherOpen x z := by
  obtain ⟨p, s, hx, hlen, hs, hslen, hy, hys⟩ := h
  exact ⟨p, s, hx, hlen, hs, hslen, hk.ether.trans hy, hk.staticonfig s hys⟩

theorem WlanOpen.kept (h : WlanOpen x y) (hk : Kept y z) : WlanOpen x z := by
  obtain ⟨p, w, s, hx, hlen, hw, hwlen, hy, hyw, hys, wlan, hwlan, hstatic, hwpa⟩ := h
  obtain ⟨wlan', hwlan', hstatic', hwpa'⟩ := hk.wlans p wlan hwlan
  exact ⟨p, w, s, hx, hlen, hw, hwlen, hk.wlan.trans hy, hk.wpa.trans hyw,
    hk.staticonfig s hys, wlan', hwlan', hstatic'.trans hstatic, hwpa'.trans hwpa⟩

/-- `DHCP no` gives the wireless section a new static configuration. -/
theorem WlanOpen.dhcp (h : WlanOpen x y) {v v' : Val} {yes : Int}
    (hz : actWirelessDhcp v yes y = .ok v' z) : WlanOpen x z := by
  obtain ⟨p, w, s, hx, hlen, hw, hwlen, hy, hyw, hys, wlan, hwlan, hstatic, hwpa⟩ := h
  simp only [actWirelessDhcp] at hz
  split at hz
  · simp only [setWlan, newStatic, hy, withPtr] at hz
    cases hz
    refine ⟨p, w, y.heap.statics.length, hx, hlen, hw, hwlen, rfl, hyw, rfl,
      { wlan with isdhcp := 0, staticopts := some y.heap.statics.length }, ?_, rfl, hwpa⟩
    simp [hwlan]
  · simp only [setWlan, hy, withPtr] at hz
    cases hz
    refine ⟨p, w, s, hx, hlen, hw, hwlen, rfl, hyw, hys, { wlan with isdhcp := 1 }, ?_, hstatic,
      hwpa⟩
    simp [hwlan]

theorem Kept.withLex (y : Yy) (l : Lex) : Kept y (y.withLex l) :=
  .of_same rfl rfl rfl rfl rfl rfl

end Scopes

/-- What a scope of the grammar needs, apart from its pointers. -/
theorem scope_of {fs : FileSystem} {c : Client Token Val Yy} (hc : Feeds fs c)
    {o : Nat × List Nat} (ho : o ∈ outside) (lhs : Nonterm) {rule : Nat}
    (hm : (o.1, lhs, rule) ∈ marks) {J : Yy → Yy → Prop}
    (hopens : ∀ vs x v y, action fs rule vs (defaultVal rule vs) x = .ok v y → J y y)
    (hkept : ∀ x y z, J x y → Kept y z → J x z)
    (haction : ∀ n vs x y v z, n ∉ o.2 → J x y →
      action fs n vs (defaultVal n vs) y = .ok v z → J x z) :
    Scope tables c Edge (· = o.1) rule J := by
  have hmem : o.1 ∈ marks.map Prod.fst := List.mem_map_of_mem hm
  constructor
  · have hall : ∀ m ∈ marks.map Prod.fst, ¬tables.final = m := by decide
    exact hall _ hmem
  · exact fun st a st' => mark_ne_shift hmem
  · exact fun st st' => mark_ne_shiftError hmem
  · exact fun n st => rule_of_mark hm
  · exact fun stack rest st hpath hpop => no_mark_after_error hpath hpop ho
  · intro vs x v y h
    rw [action_of_feeds hc] at h
    exact hopens vs x v y h
  · intro x y hJ
    obtain ⟨l, hl⟩ := hc.lex y
    rw [hl]
    exact hkept x y _ hJ (.withLex y l)
  · intro x y hJ
    obtain ⟨l, hl⟩ := hc.syntaxError y
    rw [hl]
    exact hkept x y _ hJ (.withLex y l)
  · intro n vs x y z hJ h
    rw [action_of_feeds hc] at h
    obtain ⟨l, rfl⟩ := action_onlyReports fs n vs _ z h
    exact hkept x y _ hJ (.withLex y l)
  · intro stack n x y v z hpath hred hmark hJ h
    rw [action_of_feeds hc] at h
    exact haction n _ x y v z (not_mem_outside hpath hred ho hmark) hJ h

section Instances

variable {fs : FileSystem} {c : Client Token Val Yy} (hc : Feeds fs c)

include hc

theorem networkScope : Scope tables c Edge (· = networkMark) 20 NetworkOpen := by
  refine scope_of hc (o := (networkMark, [20, 21])) (by decide) .networkAction (by decide) ?_
    (fun x y z h hk => h.kept hk.network) ?_
  · intro vs x v y h
    simp only [action, withString, actNetwork] at h
    split at h
    · split at h
      · cases h
      · cases h
        exact ⟨_, rfl, by simp, rfl⟩
    · cases h
  · intro n vs x y v z hn hJ h
    have hk := action_network fs hn vs (defaultVal n vs) y
    rw [h] at hk
    exact hJ.kept hk

theorem ethernetScope : Scope tables c Edge (· = ethernetMark) 27 EtherOpen := by
  refine scope_of hc (o := (ethernetMark, [20, 21, 27, 28, 42, 43, 56])) (by decide)
    .ethernetAction (by decide) ?_ (fun x y z h hk => h.kept hk) ?_
  · intro vs x v y h
    simp only [action, withString, actEthernet, withPtr] at h
    split at h
    · split at h
      · cases h
        exact ⟨_, _, rfl, by simp, rfl, by simp, rfl, rfl⟩
      · cases h
    · cases h
  · intro n vs x y v z hn hJ h
    have hk := action_kept fs hn vs (defaultVal n vs) y
    rw [h] at hk
    exact hJ.kept hk

theorem wirelessScope : Scope tables c Edge (· = wirelessMark) 42 WlanOpen := by
  refine scope_of hc (o := (wirelessMark, [20, 21, 27, 28, 42, 43])) (by decide)
    .wirelessAction (by decide) ?_ (fun x y z h hk => h.kept hk) ?_
  · intro vs x v y h
    simp only [action, withString, actWireless, withPtr] at h
    split at h
    · split at h
      · cases h
        exact ⟨_, _, _, rfl, by simp, rfl, by simp, rfl, rfl, rfl, _,
          List.getElem?_concat_length, rfl, rfl⟩
      · cases h
    · cases h
  · intro n vs x y v z hn hJ h
    by_cases hdhcp : n = 56
    · subst hdhcp
      simp only [action, withNumber] at h
      split at h
      · exact hJ.dhcp h
      · cases h
    · have hn' : n ∉ [20, 21, 27, 28, 42, 43, 56] := by
        simp only [List.mem_cons, List.not_mem_nil, or_false, not_or] at hn ⊢
        omega
      have hk := action_kept fs hn' vs (defaultVal n vs) y
      rw [h] at hk
      exact hJ.kept hk

end Instances

/-! ## Options and headers -/

/-- The rules of the options in an ethernet section. -/
def ethernetRules : List Nat := [35, 36, 37, 39, 40, 41]

/-- The rules of the options in a wireless section, and in its `wpa` and `wep` blocks. -/
def wirelessRules : List Nat := [50, 51, 52, 53, 54, 55, 56, 60, 61, 62, 71, 72, 73, 74, 83]

/-- The rules of the static configuration, which both have. -/
def staticRules : List Nat := [85, 86, 87, 88]

/-- The rules of the actions in section headers. -/
def headerRules : List Nat := [27, 42]

/-- The states that reduce by one of the rules have one of the marks below them. -/
def marked (ms ns : List Nat) : Bool :=
  closedBut ms (without ms) && (without ms).testBit 0 &&
    (List.range rows.length).all fun st =>
      (reductions st).all fun n => !ns.contains n || !(without ms).testBit st

theorem options_marked :
    (marked [ethernetMark] ethernetRules && marked [wirelessMark] wirelessRules &&
      marked [ethernetMark, wirelessMark] staticRules &&
      marked [networkMark] headerRules) = true := by
  -- one table at a time, so that the kernel evaluates them one after the other
  have hether : marked [ethernetMark] ethernetRules = true := by decide +kernel
  have hwlan : marked [wirelessMark] wirelessRules = true := by decide +kernel
  have hstatic : marked [ethernetMark, wirelessMark] staticRules = true := by decide +kernel
  have hheader : marked [networkMark] headerRules = true := by decide +kernel
  rw [hether, hwlan, hstatic, hheader]
  rfl

theorem exists_mark {ms ns : List Nat} (h : marked ms ns = true)
    {stack : List (Nat × Val)} (hpath : Path Edge stack) {n : Nat} (hn : n ∈ ns)
    (hred : tables.Reduces (top stack) n) :
    ∃ e rest, e :: rest <:+ stack ∧ e.1 ∈ ms := by
  simp only [marked, Bool.and_eq_true, List.all_eq_true] at h
  obtain ⟨⟨hclosed, hzero⟩, hall⟩ := h
  have htop := hall _ (List.mem_range.2 (lt_length_of_reduces hred)) n (mem_reductions hred)
  rw [List.contains_iff_mem.2 hn, Bool.not_true, Bool.false_or, Bool.not_eq_true'] at htop
  obtain ⟨e, he, hmark⟩ := exists_mem_of_top hpath hclosed hzero htop
  obtain ⟨above, rest, heq⟩ := List.append_of_mem he
  exact ⟨e, rest, ⟨above, heq.symm⟩, hmark⟩

/-- `q` lies in a section of a run from `p`: `r` is the state after the action of the
section's header, rule `rule`, and the section has not been left since. -/
structure InSection (c : Client Token Val Yy) (p : State Token Val Yy) (rule : Nat)
    (r q : State Token Val Yy) : Prop where
  opened : Opened tables c p rule r
  within : Within tables c r q

section Runs

variable {fs : FileSystem} {c : Client Token Val Yy} {y : Yy} {q : State Token Val Yy}

/-- A mark on the stack: the run is in the section it was pushed by. -/
theorem inSection_of_mark {m rule : Nat} {J : Yy → Yy → Prop}
    (hscope : Scope tables c Edge (· = m) rule J) (hreach : Reaches tables c (.initial y) q)
    {e : Nat × Val} {rest : List (Nat × Val)} (hsuffix : e :: rest <:+ q.stack) (hmark : e.1 = m) :
    ∃ r, InSection c (.initial y) rule r q ∧ J r.client q.client := by
  obtain ⟨r, hopened, -, hwithin, hJ⟩ := hscope.within (sound Val) hreach rfl hsuffix hmark
  exact ⟨r, ⟨hopened, hwithin⟩, hJ⟩

theorem inSection_of_marked {m rule : Nat} {ns : List Nat} {J : Yy → Yy → Prop}
    (hscope : Scope tables c Edge (· = m) rule J) (hmarked : marked [m] ns = true)
    (hreach : Reaches tables c (.initial y) q) {n : Nat} (hred : Reducing tables q n)
    (hn : n ∈ ns) : ∃ r, InSection c (.initial y) rule r q ∧ J r.client q.client := by
  have hpath : Path Edge q.stack := hreach.path (sound Val) trivial
  obtain ⟨e, rest, hsuffix, hmark⟩ := exists_mark hmarked hpath hn hred.reduces
  exact inSection_of_mark hscope hreach hsuffix (List.mem_singleton.1 hmark)

theorem wireless_option (hc : Feeds fs c) (hreach : Reaches tables c (.initial y) q) {n : Nat}
    (hred : Reducing tables q n) (hn : n ∈ wirelessRules) :
    ∃ r, InSection c (.initial y) 42 r q ∧ WlanOpen r.client q.client := by
  have hmarked := options_marked
  simp only [Bool.and_eq_true] at hmarked
  exact inSection_of_marked (wirelessScope hc) hmarked.1.1.2 hreach hred hn

/-- In a run over any tokens, an option is reduced only inside a section of its kind,
and the pointers are those of that section; a section header is reduced only inside a
network, which is the current one. -/
theorem options_in_their_sections {fs : FileSystem} {c : Client Token Val Yy} (hc : Feeds fs c)
    (y : Yy) {q : State Token Val Yy} (hreach : Reaches tables c (.initial y) q) {n : Nat}
    (hred : Reducing tables q n) :
    (n ∈ ethernetRules →
        ∃ r, InSection c (.initial y) 27 r q ∧ EtherOpen r.client q.client) ∧
      (n ∈ wirelessRules →
        ∃ r, InSection c (.initial y) 42 r q ∧ WlanOpen r.client q.client) ∧
      (n ∈ staticRules →
        ∃ r, InSection c (.initial y) 27 r q ∧ EtherOpen r.client q.client ∨
          InSection c (.initial y) 42 r q ∧ WlanOpen r.client q.client) ∧
      (n ∈ headerRules →
        ∃ r, InSection c (.initial y) 20 r q ∧ NetworkOpen r.client q.client) := by
  have hmarked := options_marked
  simp only [Bool.and_eq_true] at hmarked
  obtain ⟨⟨⟨hether, -⟩, hstatic⟩, hheader⟩ := hmarked
  refine ⟨?_, wireless_option hc hreach hred, ?_, ?_⟩
  · exact inSection_of_marked (ethernetScope hc) hether hreach hred
  · intro hn
    have hpath : Path Edge q.stack := hreach.path (sound Val) trivial
    obtain ⟨e, rest, hsuffix, hmark⟩ := exists_mark hstatic hpath hn hred.reduces
    rw [List.mem_pair] at hmark
    rcases hmark with hmark | hmark
    · obtain ⟨r, hr⟩ := inSection_of_mark (ethernetScope hc) hreach hsuffix hmark
      exact ⟨r, .inl hr⟩
    · obtain ⟨r, hr⟩ := inSection_of_mark (wirelessScope hc) hreach hsuffix hmark
      exact ⟨r, .inr hr⟩
  · exact inSection_of_marked (networkScope hc) hheader hreach hred

end Runs

/-- A configuration with one option. -/
def onePriority : FileSystem where
  stdin := asciiBytes "network n \x7b\nethernet e \x7b\npriority 1\n\x7d\n\x7d\n"
  inode _ := none
  uid := 0
  openMax := none

/-- The state in which the parser reads it. -/
def priorityStart : State Token Val Yy :=
  .initial ((Globals.initial []).start ⟨CStr.lit "stdin", onePriority.stdin, 1, 0⟩)

theorem options_in_their_sections_priority :
    ∃ q, Reaches tables (client onePriority) priorityStart q ∧ Reducing tables q 35 ∧
      ∃ r, InSection (client onePriority) priorityStart 27 r q ∧
        EtherOpen r.client q.client := by
  have hsteps : (steps tables (client onePriority) 28 priorityStart).any
      (fun q => !q.accepting && tables.defred (top q.stack) = some 35) = true := by
    decide +kernel
  obtain ⟨q, hq, htest⟩ := (Option.any_eq_true _ _).1 hsteps
  simp only [Bool.and_eq_true, Bool.not_eq_true', decide_eq_true_eq] at htest
  have hreach := reaches_of_steps hq
  have hred : Reducing tables q 35 := ⟨htest.1, .inl htest.2⟩
  exact ⟨q, hreach, hred,
    (options_in_their_sections (feeds_client onePriority) _ hreach hred).1 (by decide)⟩

end Ifconfigd.Parse
