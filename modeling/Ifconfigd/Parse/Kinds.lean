import Ifconfigd.Parse.Options

/-!
# The same options in the two kinds of section

An ethernet section and a wireless section with the same shared options differ in one
point. In the wireless section `dhcp no` starts a new static record, so what was given
before it has to be given again.
-/

namespace Ifconfigd.Parse

open CLib Yacc

/-- An ethernet and a wireless section with the same settings and the same addressing. -/
structure SameMeaning (e : Ethernet StaticCfg) (w : Wireless StaticCfg WpaCfg) : Prop where
  settings : etherSettings e = wlanSettings w
  addresses : e.isdhcp = 0 → e.staticopts = w.staticopts

/-- The kinds of static options. -/
def staticKinds : List (Opt → Option CStr) :=
  [Opt.inet?, Opt.netmask?, Opt.domainName?, Opt.domainNameServers?]

/-- Whatever static option was given before the last `dhcp no` is given again after it. -/
def GivenAgain (os : List Opt) : Prop :=
  ∀ before after, os = before ++ .dhcp false :: after → .dhcp false ∉ after →
    ∀ f ∈ staticKinds, lastOf f before ≠ none → lastOf f after ≠ none

theorem applyStaticAnew_of_ne {c : StaticCfg} {o : Opt} (h : o ≠ .dhcp false) :
    applyStaticAnew c o = applyStatic c o := by
  unfold applyStaticAnew
  split
  · exact absurd rfl h
  · rfl

/-- Without `dhcp no` both kinds of section collect the same. -/
theorem foldl_applyStaticAnew {os : List Opt} (h : .dhcp false ∉ os) (c : StaticCfg) :
    os.foldl applyStaticAnew c = os.foldl applyStatic c := by
  induction os generalizing c with
  | nil => rfl
  | cons o os ih =>
      rw [List.mem_cons, not_or] at h
      rw [List.foldl_cons, List.foldl_cons, applyStaticAnew_of_ne (Ne.symm h.1), ih h.2]

theorem staticAfterAnew_append {before after : List Opt} (h : .dhcp false ∉ after) :
    staticAfterAnew (before ++ .dhcp false :: after) = staticAfter after := by
  rw [staticAfterAnew, List.foldl_append, List.foldl_cons, foldl_applyStaticAnew h]
  rfl

theorem lastOf_append_dhcp {f : Opt → Option CStr} (hf : f ∈ staticKinds)
    (before after : List Opt) :
    lastOf f (before ++ .dhcp false :: after) = (lastOf f after).or (lastOf f before) := by
  have hnone : f (.dhcp false) = none := by
    simp only [staticKinds, List.mem_cons, List.not_mem_nil, or_false] at hf
    rcases hf with rfl | rfl | rfl | rfl <;> rfl
  rw [lastOf_append, ← List.singleton_append, lastOf_append, lastOf_singleton, hnone,
    Option.or_none]

theorem or_eq_left_iff {A : Type} (a b : Option A) :
    a.or b = a ↔ (b ≠ none → a ≠ none) := by
  cases a <;> cases b <;> simp

/-- What is lost at the last `dhcp no`. -/
theorem static_kept_iff {before after : List Opt} (h : .dhcp false ∉ after) :
    staticAfter (before ++ .dhcp false :: after) =
        staticAfterAnew (before ++ .dhcp false :: after) ↔
      ∀ f ∈ staticKinds, lastOf f before ≠ none → lastOf f after ≠ none := by
  have hkind : ∀ f ∈ staticKinds, lastOf f (before ++ .dhcp false :: after) = lastOf f after ↔
      (lastOf f before ≠ none → lastOf f after ≠ none) := by
    intro f hf
    rw [lastOf_append_dhcp hf, or_eq_left_iff]
  rw [staticAfterAnew_append h, staticAfter_eq, staticAfter_eq after, StaticCfg.mk.injEq,
    hkind _ (by simp [staticKinds]), hkind _ (by simp [staticKinds]),
    hkind _ (by simp [staticKinds]), hkind _ (by simp [staticKinds])]
  simp [staticKinds]

/-- The two kinds of section collect the same exactly if nothing is lost. -/
theorem staticAfter_eq_anew_iff (os : List Opt) :
    staticAfter os = staticAfterAnew os ↔ GivenAgain os := by
  constructor
  · rintro h before after rfl hafter
    exact (static_kept_iff hafter).1 h
  · intro h
    by_cases hmem : .dhcp false ∈ os
    · -- The last `dhcp no` is the first one of the reversed list.
      obtain ⟨after, before, hrev, hafter⟩ :=
        List.eq_append_cons_of_mem (List.mem_reverse.2 hmem)
      have hos : os = before.reverse ++ .dhcp false :: after.reverse := by
        rw [← List.reverse_reverse os, hrev]
        simp
      have hlast : .dhcp false ∉ after.reverse := by simpa using hafter
      have hgiven := h _ _ hos hlast
      rw [hos]
      exact (static_kept_iff hlast).2 hgiven
    · rw [staticAfterAnew, foldl_applyStaticAnew hmem]
      rfl

/-- In any two runs, for an ethernet block and a wireless block with the same shared
options: the sections mean the same exactly if the last `dhcp` is `yes` or what was given
before the last `dhcp no` is given again. -/
theorem same_meaning_iff {fs fs' : FileSystem} {c c' : Client Token Val Yy} (hc : Feeds fs c)
    (hc' : Feeds fs' c') {y y' : Yy} {r q r' q' : State Token Val Yy} {os : List Opt}
    (h : SectionBlock c y etherNote 27 r os q) (h' : SectionBlock c' y' wlanNote 42 r' os q') :
    ∃ p p', r.client.ether = some p ∧ r'.client.wlan = some p' ∧
      (SameMeaning (q.client.heap.ethernet p) (q'.client.heap.wireless p') ↔
        lastOf Opt.dhcp? os = some true ∨ GivenAgain os) := by
  obtain ⟨p, s, hether, hread⟩ := etherRead_of_block hc h
  obtain ⟨p', hwlan, hread'⟩ := wlanRead_of_block hc' h'
  obtain ⟨hsettings, hopts⟩ := hread.ethernet
  obtain ⟨hsettings', hopts'⟩ := hread'.wireless
  have hdhcp : (q.client.heap.ethernet p).isdhcp = (settingsAfter os).isdhcp :=
    congrArg Settings.isdhcp hsettings
  refine ⟨p, p', hether, hwlan, ?_⟩
  rw [← staticAfter_eq_anew_iff]
  constructor
  · intro hsame
    by_cases hyes : lastOf Opt.dhcp? os = some true
    · exact .inl hyes
    · have hoff : (settingsAfter os).isdhcp = 0 := by rw [settingsAfter_isdhcp, if_neg hyes]
      have haddresses := hsame.addresses (hdhcp.trans hoff)
      rw [hopts, hopts', hoff, if_neg (by decide)] at haddresses
      exact .inr (Option.some.inj haddresses)
  · intro hcond
    refine ⟨hsettings.trans hsettings'.symm, fun hoff => ?_⟩
    rw [hdhcp] at hoff
    rcases hcond with hyes | hequal
    · rw [settingsAfter_isdhcp, if_pos hyes] at hoff
      cases hoff
    · rw [hopts, hopts', hoff, if_neg (by decide), hequal]

theorem same_meaning_iff_early_dhcp :
    ∃ r q r' q', SectionBlock (client (oneBlock "ethernet" "dhcp no\ninet \"a\"\n"))
        (blockStart "ethernet" "dhcp no\ninet \"a\"\n") etherNote 27 r
        [.dhcp false, .inet (.lit "a")] q ∧ Reducing tables q 28 ∧
      SectionBlock (client (oneBlock "wireless" "dhcp no\ninet \"a\"\n"))
        (blockStart "wireless" "dhcp no\ninet \"a\"\n") wlanNote 42 r'
        [.dhcp false, .inet (.lit "a")] q' ∧ Reducing tables q' 43 ∧
      ∃ p p', r.client.ether = some p ∧ r'.client.wlan = some p' ∧
        SameMeaning (q.client.heap.ethernet p) (q'.client.heap.wireless p') := by
  have hread : readsBlock "ethernet" "dhcp no\ninet \"a\"\n" etherNote 27 28 33
      [.dhcp false, .inet (.lit "a")] = true := by
    decide +kernel
  have hread' : readsBlock "wireless" "dhcp no\ninet \"a\"\n" wlanNote 42 43 33
      [.dhcp false, .inet (.lit "a")] = true := by
    decide +kernel
  obtain ⟨r, q, hblock, hclose⟩ := exists_of_readsBlock hread
  obtain ⟨r', q', hblock', hclose'⟩ := exists_of_readsBlock hread'
  obtain ⟨p, p', hether, hwlan, hiff⟩ :=
    same_meaning_iff (feeds_client _) (feeds_client _) hblock hblock'
  refine ⟨r, q, r', q', hblock, hclose, hblock', hclose', p, p', hether, hwlan, hiff.2 (.inr ?_)⟩
  exact (staticAfter_eq_anew_iff _).1 (by decide)

/-- With the address before `dhcp no` the wireless section has none. -/
theorem wireless_loses_address :
    ∃ r q r' q', SectionBlock (client (oneBlock "ethernet" "inet \"a\"\ndhcp no\n"))
        (blockStart "ethernet" "inet \"a\"\ndhcp no\n") etherNote 27 r
        [.inet (.lit "a"), .dhcp false] q ∧ Reducing tables q 28 ∧
      SectionBlock (client (oneBlock "wireless" "inet \"a\"\ndhcp no\n"))
        (blockStart "wireless" "inet \"a\"\ndhcp no\n") wlanNote 42 r'
        [.inet (.lit "a"), .dhcp false] q' ∧ Reducing tables q' 43 ∧
      ∃ p p', r.client.ether = some p ∧ r'.client.wlan = some p' ∧
        ¬SameMeaning (q.client.heap.ethernet p) (q'.client.heap.wireless p') := by
  have hread : readsBlock "ethernet" "inet \"a\"\ndhcp no\n" etherNote 27 28 33
      [.inet (.lit "a"), .dhcp false] = true := by
    decide +kernel
  have hread' : readsBlock "wireless" "inet \"a\"\ndhcp no\n" wlanNote 42 43 33
      [.inet (.lit "a"), .dhcp false] = true := by
    decide +kernel
  obtain ⟨r, q, hblock, hclose⟩ := exists_of_readsBlock hread
  obtain ⟨r', q', hblock', hclose'⟩ := exists_of_readsBlock hread'
  obtain ⟨p, s, hether, hether'⟩ := etherRead_of_block (feeds_client _) hblock
  obtain ⟨p', hwlan, hwlan'⟩ := wlanRead_of_block (feeds_client _) hblock'
  refine ⟨r, q, r', q', hblock, hclose, hblock', hclose', p, p', hether, hwlan, fun hsame => ?_⟩
  have hoff := congrArg Settings.isdhcp hether'.ethernet.1
  have haddresses := hsame.addresses hoff
  rw [hether'.ethernet.2, hwlan'.wireless.2] at haddresses
  revert haddresses
  decide

end Ifconfigd.Parse
