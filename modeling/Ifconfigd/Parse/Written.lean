import Ifconfigd.Parse.Enclosing

/-!
# The keys of a configuration and the text they come from

A wireless section gets its WPA record when its header is read, so the record does
not show whether the section was written with a `wpa` block. Here the record is
traced back to the reductions of the run: a section has a key exactly if the rule of
the option `wpakey` was reduced in it.
-/

namespace Ifconfigd.Parse

open CLib Yacc

variable {fs : FileSystem} {c : Client Token Val Yy}

/-- In a run from `start`, rule `n` is reduced while `p` is the current wireless
section. -/
def Written (c : Client Token Val Yy) (start : State Token Val Yy) (n p : Nat) : Prop :=
  ∃ r r', Reaches tables c start r ∧ Reducing tables r n ∧ r.client.wlan = some p ∧
    step tables c r = .run r'

/-- The same in the first `k` steps of the run. -/
def WrittenIn (c : Client Token Val Yy) (start : State Token Val Yy) (k n p : Nat) : Prop :=
  ∃ j r, j < k ∧ steps tables c j start = some r ∧ Reducing tables r n ∧ r.client.wlan = some p

theorem writtenIn_iff {start q : State Token Val Yy} {k : Nat} {status : Status} {y : Yy}
    (hq : steps tables c k start = some q) (hdone : step tables c q = .done status y) (n p : Nat) :
    WrittenIn c start k n p ↔ Written c start n p := by
  constructor
  · rintro ⟨j, r, hlt, hr, hred, hwlan⟩
    have hnext := steps_isSome_mono (Nat.succ_le_of_lt hlt) (Option.isSome_iff_exists.2 ⟨q, hq⟩)
    rw [steps_succ, hr, Option.bind_some] at hnext
    cases hstep : step tables c r with
    | run r' => exact ⟨r, r', reaches_of_steps hr, hred, hwlan, hstep⟩
    | done =>
        rw [hstep] at hnext
        cases hnext
  · rintro ⟨r, r', hr, hred, hwlan, hstep⟩
    obtain ⟨j, hj⟩ := exists_steps_of_reaches hr
    exact ⟨j, r, lt_of_steps hq hdone hj hstep, hj, hred, hwlan⟩

theorem writtenIn_succ {start q : State Token Val Yy} {k : Nat}
    (hq : steps tables c k start = some q) (n p : Nat) :
    WrittenIn c start (k + 1) n p ↔
      WrittenIn c start k n p ∨ Reducing tables q n ∧ q.client.wlan = some p := by
  constructor
  · rintro ⟨j, r, hlt, hr, hred, hwlan⟩
    rcases Nat.lt_succ_iff_lt_or_eq.1 hlt with hlt | rfl
    · exact .inl ⟨j, r, hlt, hr, hred, hwlan⟩
    · rw [hq] at hr
      cases hr
      exact .inr ⟨hred, hwlan⟩
  · rintro (⟨j, r, hlt, hr, hred, hwlan⟩ | ⟨hred, hwlan⟩)
    · exact ⟨j, r, Nat.lt_succ_of_lt hlt, hr, hred, hwlan⟩
    · exact ⟨k, q, Nat.lt_succ_self k, hq, hred, hwlan⟩

/-! ## What the actions do to the WPA records -/

/-- Each wireless section has the WPA record of its own number. -/
structure WpaPaired (y : Yy) : Prop where
  length : y.heap.wpas.length = y.heap.wlans.length
  own : ∀ (p : Nat) (w : Wireless Nat Nat), y.heap.wlans[p]? = some w → w.wpa = some p

/-- The record has a key. -/
def HasKey (y : Yy) (p : Nat) : Prop := ∃ w : WpaCfg, y.heap.wpas[p]? = some w ∧ w.wpakey ≠ none

/-- The action of rule `n`: a key appears where `wpakey` is read and nowhere else. -/
def WpaEffect (n : Nat) (y z : Yy) : Prop :=
  WpaPaired y → WpaPaired z ∧
    ∀ p, HasKey z p ↔ HasKey y p ∨ n = 71 ∧ y.wpa = some p ∧ p < y.heap.wpas.length

section WpaEffect

variable {n : Nat} {y z : Yy}

theorem WpaEffect.of_same (hn : n ≠ 71) (hwlans : z.heap.wlans = y.heap.wlans)
    (hwpas : z.heap.wpas = y.heap.wpas) : WpaEffect n y z := by
  intro h
  refine ⟨⟨?_, ?_⟩, ?_⟩
  · rw [hwpas, hwlans]
    exact h.length
  · rw [hwlans]
    exact h.own
  · intro p
    simp [HasKey, hwpas, hn]

theorem setWlan_wpaEffect (hn : n ≠ 71) (v : Val) {f : Wireless Nat Nat → Wireless Nat Nat}
    (hf : ∀ w, (f w).wpa = w.wpa) : (setWlan v f y).Holds (WpaEffect n y) := by
  refine withPtr_holds fun q h => ⟨⟨?_, ?_⟩, ?_⟩
  · simpa using h.length
  · intro p w hw
    simp only [List.getElem?_modify, Option.map_eq_map, Option.map_eq_some_iff] at hw
    obtain ⟨w', hw', rfl⟩ := hw
    split
    · rw [hf]
      exact h.own p w' hw'
    · exact h.own p w' hw'
  · intro p
    simp [HasKey, hn]

theorem setWpa_wpaEffect (hn : n ≠ 71) (v : Val) {f : WpaCfg → WpaCfg}
    (hf : ∀ w, (f w).wpakey = w.wpakey) : (setWpa v f y).Holds (WpaEffect n y) := by
  refine withPtr_holds fun q h => ⟨⟨?_, h.own⟩, ?_⟩
  · simpa using h.length
  · intro p
    simp only [HasKey, List.getElem?_modify, Option.map_eq_map, hn, false_and, or_false]
    cases y.heap.wpas[p]? with
    | none => simp
    | some w =>
        by_cases hp : q = p <;> simp [hp, hf]

theorem wpakey_wpaEffect (v : Val) (key : CStr) :
    (setWpa v (fun w => { w with wpakey := some key }) y).Holds (WpaEffect 71 y) := by
  cases hq : y.wpa with
  | none =>
      simp only [setWpa, hq, withPtr]
      trivial
  | some q =>
      simp only [setWpa, hq, withPtr]
      refine fun h => ⟨⟨?_, h.own⟩, ?_⟩
      · simpa using h.length
      · intro p
        simp only [HasKey, List.getElem?_modify, Option.map_eq_map, true_and, hq,
          Option.some.injEq]
        by_cases hp : q = p
        · subst hp
          cases hw : y.heap.wpas[q]? with
          | none => simpa [hw] using List.getElem?_eq_none_iff.1 hw
          | some w =>
              have hlt := (List.getElem?_eq_some_iff.1 hw).1
              simp [hlt]
        · simp [hp]

theorem actWireless_wpaEffect (v : Val) (name : CStr) :
    (actWireless v name y).Holds (WpaEffect 42 y) := by
  refine withPtr_holds fun q h => ⟨⟨?_, ?_⟩, ?_⟩
  · simpa using h.length
  · intro p w hw
    simp only [List.getElem?_append] at hw
    split at hw
    · exact h.own p w hw
    · next hge =>
        rw [List.getElem?_singleton] at hw
        split at hw
        · cases hw
          have hlen := h.length
          simp only [Option.some.injEq]
          omega
        · cases hw
  · intro p
    simp only [HasKey, List.getElem?_append]
    split
    · simp
    · next hge =>
        have hnone : y.heap.wpas[p]? = none := List.getElem?_eq_none_iff.2 (by omega)
        simp [hnone, List.getElem?_singleton, WpaCfg.zero]

theorem actWirelessDhcp_wpaEffect (v : Val) (yes : Int) :
    (actWirelessDhcp v yes y).Holds (WpaEffect 56 y) := by
  simp only [actWirelessDhcp]
  split
  · have hset := setWlan_wpaEffect (n := 56) (y := newStatic y) (by decide) v
      (f := fun w => { w with isdhcp := 0, staticopts := some y.heap.statics.length }) fun _ => rfl
    exact hset.mono fun z hz h => hz ⟨h.length, h.own⟩
  · exact setWlan_wpaEffect (by decide) v fun _ => rfl

theorem actEthernetDhcp_wpaEffect (v : Val) (yes : Int) :
    (actEthernetDhcp v yes y).Holds (WpaEffect 37 y) := by
  simp only [actEthernetDhcp]
  split
  · split <;> exact withPtr_holds fun _ => .of_same (by decide) rfl rfl
  · exact withPtr_holds fun _ => .of_same (by decide) rfl rfl

theorem actInclude_wpaEffect (fs : FileSystem) (v : Val) (name : CStr) :
    (actInclude fs v name y).Holds (WpaEffect 15 y) := by
  simp only [actInclude]
  split <;> exact .of_same (by decide) rfl rfl

theorem actGlobal_wpaEffect (v : Val) (n : Int) :
    (actGlobal v n y).Holds (WpaEffect 19 y) := by
  simp only [actGlobal]
  split <;> exact .of_same (by decide) rfl rfl

theorem actNetwork_wpaEffect (v : Val) (name : CStr) :
    (actNetwork v name y).Holds (WpaEffect 20 y) := by
  simp only [actNetwork]
  split <;> exact .of_same (by decide) rfl rfl

theorem action_wpaEffect (fs : FileSystem) (n : Nat) (vs : List Val) (v : Val) (y : Yy) :
    (action fs n vs v y).Holds (WpaEffect n y) := by
  unfold action
  split
  all_goals first
    | exact .of_same (by decide) rfl rfl
    | exact withString_holds fun _ => withPtr_holds fun _ => .of_same (by decide) rfl rfl
    | exact withNumber_holds fun _ => withPtr_holds fun _ => .of_same (by decide) rfl rfl
    | exact withString_holds fun _ => withString_holds fun _ => .of_same (by decide) rfl rfl
    | exact withString_holds fun _ => setWlan_wpaEffect (by decide) _ fun _ => rfl
    | exact withNumber_holds fun _ => setWlan_wpaEffect (by decide) _ fun _ => rfl
    | exact withString_holds fun _ => setWpa_wpaEffect (by decide) _ fun _ => rfl
    | exact withString_holds fun _ => wpakey_wpaEffect _ _
    | exact withString_holds fun _ => actWireless_wpaEffect _ _
    | exact withNumber_holds fun _ => actWirelessDhcp_wpaEffect _ _
    | exact withNumber_holds fun _ => actEthernetDhcp_wpaEffect _ _
    | exact withString_holds fun _ => actInclude_wpaEffect fs _ _
    | exact withNumber_holds fun _ => actGlobal_wpaEffect _ _
    | exact withString_holds fun _ => actNetwork_wpaEffect _ _
    | exact .of_same (by assumption) rfl rfl

end WpaEffect

/-! ## Whole runs -/

variable {y : Yy}

theorem key_block_marked : marked [wpaMark] [71] = true := by
  decide +kernel

/-- In a `wpa` block the wireless section stays the same. -/
theorem wpaScope (hc : Feeds fs c) :
    Scope tables c Edge (· = wpaMark) 63 fun x y => y.wlan = x.wlan := by
  refine scope_of hc (o := (wpaMark, [20, 21, 27, 28, 42, 43, 56])) (by decide) .wpaAction
    (by decide) (fun _ _ _ _ _ => rfl) (fun x y z h hk => hk.wlan.trans h) ?_
  intro n vs x y v z hn hJ h
  have hk := action_kept fs hn vs (defaultVal n vs) y
  rw [h] at hk
  exact hk.wlan.trans hJ

/-- A key is written in a `wpa` block. -/
theorem block_of_key (hc : Feeds fs c) {p : Nat} (h : Written c (.initial y) 71 p) :
    Written c (.initial y) 63 p := by
  obtain ⟨r, r', hr, hred, hwlan, -⟩ := h
  obtain ⟨s, ⟨⟨q, v, hq, hopen, hact, hstep⟩, -⟩, hsame⟩ :=
    inSection_of_marked (wpaScope hc) key_block_marked hr hred (List.mem_singleton.2 rfl)
  refine ⟨q, s, hq, hopen, ?_, hstep⟩
  rw [action_of_feeds hc] at hact
  have hk := action_kept fs (n := 63) (by decide) (q.stack.map Prod.snd)
    (defaultVal 63 (q.stack.map Prod.snd)) q.client
  rw [hact] at hk
  rw [← hk.wlan, ← hsame, hwlan]

/-- At the option `wpakey` the current record is that of the current section. -/
theorem wpa_eq_wlan (hc : Feeds fs c) {q : State Token Val Yy}
    (hreach : Reaches tables c (.initial y) q) (hred : Reducing tables q 71)
    (hpaired : WpaPaired q.client) (p : Nat) :
    q.client.wpa = some p ∧ p < q.client.heap.wpas.length ↔ q.client.wlan = some p := by
  obtain ⟨r, -, hopen⟩ := wireless_option hc hreach hred (by decide)
  obtain ⟨p', w, s, -, -, -, -, hwlan, hwpa, -, wlan, hget, -, hown⟩ := hopen
  have hw : w = p' := by simpa [hown] using hpaired.own p' wlan hget
  have hlt : p' < q.client.heap.wpas.length := by
    rw [hpaired.length]
    exact (List.getElem?_eq_some_iff.1 hget).1
  subst hw
  simp only [hwlan, hwpa, Option.some.injEq]
  constructor
  · exact And.left
  · rintro rfl
    exact ⟨rfl, hlt⟩

theorem WpaEffect.of_withLex (y : Yy) (l : Lex) : WpaEffect 0 y (y.withLex l) :=
  .of_same (by decide) rfl rfl

theorem erring_wpaEffect (hc : Feeds fs c) {q : State Token Val Yy} {z : Yy}
    (h : Erring tables c q z) : WpaEffect 0 q.client z := by
  cases h with
  | action hred hact =>
      rw [action_of_feeds hc] at hact
      obtain ⟨l, rfl⟩ := action_onlyReports fs _ _ _ z hact
      exact .of_withLex _ l
  | token =>
      split
      · obtain ⟨l, hl⟩ := hc.syntaxError q.client
        rw [hl]
        exact .of_withLex _ l
      · exact .of_same (by decide) rfl rfl

/-- Along a run the keys are the old ones and those whose options have been reduced. -/
theorem keys_of_steps (hc : Feeds fs c) (hpaired : WpaPaired y) {k : Nat}
    {q : State Token Val Yy} (hq : steps tables c k (.initial y) = some q) :
    WpaPaired q.client ∧
      ∀ p, HasKey q.client p ↔ HasKey y p ∨ WrittenIn c (.initial y) k 71 p := by
  induction k generalizing q with
  | zero =>
      cases hq
      refine ⟨hpaired, fun p => ⟨.inl, ?_⟩⟩
      rintro (hkey | ⟨j, -, hlt, -⟩)
      · exact hkey
      · omega
  | succ k ih =>
      rw [steps_succ, Option.bind_eq_some_iff] at hq
      obtain ⟨r, hr, hstep⟩ := hq
      split at hstep
      · next _ hstep' =>
          cases hstep
          obtain ⟨hpaired', hkeys⟩ := ih hr
          have hreach := reaches_of_steps hr
          have heffect : ∀ n, (n = 71 ↔ Reducing tables r 71) → WpaEffect n r.client q.client →
              WpaPaired q.client ∧
                ∀ p, HasKey q.client p ↔
                  HasKey y p ∨ WrittenIn c (.initial y) (k + 1) 71 p := by
            intro n hn h
            obtain ⟨hpaired'', hiff⟩ := h hpaired'
            refine ⟨hpaired'', fun p => ?_⟩
            rw [writtenIn_succ hr, hiff, hkeys, hn, or_assoc]
            refine or_congr_right (or_congr_right (and_congr_right fun hred => ?_))
            exact wpa_eq_wlan hc hreach hred hpaired' p
          rcases step_client hstep' with ⟨n, hred, hact⟩ | ⟨hnot, hclient⟩
          · refine heffect n ⟨fun h => h ▸ hred, fun h => hred.unique h⟩ ?_
            have heff := action_wpaEffect fs n (r.stack.map Prod.snd)
              (defaultVal n (r.stack.map Prod.snd)) r.client
            rw [← action_of_feeds hc] at heff
            rcases hact with ⟨v, hact⟩ | hact
            · rw [hact] at heff
              exact heff
            · rw [hact] at heff
              exact heff
          · refine heffect 0 ⟨fun h => absurd h (by decide), fun h => absurd h (hnot 71)⟩ ?_
            rcases hclient with hclient | hclient | hclient
            · rw [hclient]
              exact .of_same (by decide) rfl rfl
            · obtain ⟨l, hl⟩ := hc.lex r.client
              rw [hclient, hl]
              exact .of_withLex _ l
            · obtain ⟨l, hl⟩ := hc.syntaxError r.client
              rw [hclient, hl]
              exact .of_withLex _ l
      · cases hstep

/-! ## Calls of `parse_config` -/

/-- The globals a process can have between calls of `parse_config`. -/
inductive Parsed : Globals → Prop
  | initial (symhead : List Sym) : Parsed (.initial symhead)
  | call {fs : FileSystem} {fuel : Nat} {filename : CStr} {g g' : Globals}
      {conf : Option IfconfigdConf} (hg : Parsed g)
      (h : parseConfig fs fuel filename g = some (.returned conf g')) : Parsed g'

/-- What a call leaves: the globals it found, if the file cannot be opened, or those of
the last state of its run. -/
theorem parseConfig_returned {fs : FileSystem} {fuel : Nat} {filename : CStr} {g g' : Globals}
    {conf : Option IfconfigdConf}
    (h : parseConfig fs fuel filename g = some (.returned conf g')) :
    g' = g ∨ ∃ file q status y, pushfile fs g.files filename false = some file ∧
      Reaches tables (client fs) (.initial (g.start file)) q ∧
      step tables (client fs) q = .done status y ∧
      g'.yy = { y with lex := (popfile y.lex).getD y.lex } := by
  rw [parseConfig.eq_def] at h
  split at h
  · cases h
    exact .inl rfl
  · next file hfile =>
      split at h
      · cases h
      · cases h
      · next status y hne hrun =>
          cases h
          obtain ⟨q, hq, hdone⟩ := exists_reaches_of_run hrun
          exact .inr ⟨file, q, status, y, hfile, hq, hdone, rfl⟩

theorem keeps_paired (fs : FileSystem) : (client fs).Keeps WpaPaired where
  lex _ h := ⟨h.length, h.own⟩
  action n vs y h := (action_wpaEffect fs n vs (defaultVal n vs) y).mono fun _ hz => (hz h).1
  syntaxError _ h := ⟨h.length, h.own⟩
  overflow _ h := ⟨h.length, h.own⟩

theorem Parsed.paired {g : Globals} (h : Parsed g) : WpaPaired g.yy := by
  induction h with
  | initial symhead =>
      refine ⟨rfl, ?_⟩
      intro p w hw
      cases hw
  | @call fs fuel filename g g' conf hg hparse ih =>
      rw [parseConfig.eq_def] at hparse
      split at hparse
      · cases hparse
        exact ih
      · next file hfile =>
          split at hparse
          · cases hparse
          · cases hparse
          · next status y hne hrun =>
              cases hparse
              have hy := (keeps_paired fs).run hrun ⟨ih.length, ih.own⟩
              exact ⟨hy.length, hy.own⟩

/-- A call of `parse_config` reduces rule `n` in the wireless section `p`. -/
def ReadIn (fs : FileSystem) (filename : CStr) (g : Globals) (n p : Nat) : Prop :=
  ∃ file, pushfile fs g.files filename false = some file ∧
    Written (client fs) (.initial (g.start file)) n p

theorem readIn_block_of_key {filename : CStr} {g : Globals} {p : Nat}
    (h : ReadIn fs filename g 71 p) : ReadIn fs filename g 63 p := by
  obtain ⟨file, hfile, hwritten⟩ := h
  exact ⟨file, hfile, block_of_key (feeds_client fs) hwritten⟩

/-- A wireless section of an accepted configuration has a key exactly if `wpakey` was
read in it. -/
theorem hasKey_iff_readIn {fuel : Nat} {filename : CStr} {g₀ g : Globals}
    {conf : IfconfigdConf} {p : Nat} (hg₀ : Parsed g₀)
    (h : parseConfig fs fuel filename g₀ = some (.returned (some conf) g))
    (hp : g₀.yy.heap.wlans.length ≤ p) : HasKey g.yy p ↔ ReadIn fs filename g₀ 71 p := by
  obtain ⟨file, status, y, hfile, hrun, -, herrors, -, hg⟩ := parseConfig_accepted h
  have hread : ReadIn fs filename g₀ 71 p ↔
      Written (client fs) (.initial (g₀.start file)) 71 p := by
    constructor
    · rintro ⟨file', hfile', hwritten⟩
      cases hfile.symm.trans hfile'
      exact hwritten
    · exact fun hwritten => ⟨file, hfile, hwritten⟩
  obtain ⟨q, hreach, hdone⟩ := exists_reaches_of_run hrun
  obtain ⟨k, hk⟩ := exists_steps_of_reaches hreach
  have hpaired : WpaPaired (g₀.start file) := ⟨hg₀.paired.length, hg₀.paired.own⟩
  have hnew : ¬HasKey (g₀.start file) p := by
    rintro ⟨w, hw, -⟩
    have hlt := (List.getElem?_eq_some_iff.1 hw).1
    rw [hpaired.length] at hlt
    exact absurd hp (Nat.not_le_of_lt hlt)
  obtain ⟨hpaired', hkeys⟩ := keys_of_steps (feeds_client fs) hpaired hk
  have hsame : WpaEffect 0 q.client y := by
    cases step_finish hdone with
    | same => exact .of_same (by decide) rfl rfl
    | overflow hx => simp [yyerror] at herrors
    | error herr => exact erring_wpaEffect (feeds_client fs) herr
  rw [hread, hg, ← writtenIn_iff hk hdone]
  change HasKey y p ↔ _
  rw [(hsame hpaired').2 p, hkeys p]
  simp [hnew]

end Ifconfigd.Parse
