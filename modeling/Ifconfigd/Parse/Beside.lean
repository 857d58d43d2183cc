import Ifconfigd.Parse.Atop
import Ifconfigd.Parse.Symbols
import Ifconfigd.Parse.Values

/-!
# Actions side by side

The parses of a file alone and on top of what an earlier parse left are compared action
by action. The heap of the later one begins with what the earlier parse allocated, so its
pointers are shifted; where the parse alone has no pointer yet, the later one may have an
old one.
-/

namespace Ifconfigd.Parse

open CLib Yacc

/-! ## The symbol table -/

/-- A macro set in both tables has the same value in both afterwards. -/
theorem Extends.symset {names : List CStr} {t₁ t₂ : List Sym} (h : Extends names t₁ t₂)
    (nam val : CStr) : Extends names (symset nam val false t₁) (symset nam val false t₂) where
  kept x sym hfind := by
    rw [find_symset h.nodup₁] at hfind
    rw [find_symset h.nodup₂]
    split at hfind
    · next hx =>
        rw [if_pos hx]
        cases hfind₁ : t₁.find? fun sym => sym.nam = nam with
        | some sym₁ =>
            rw [hfind₁] at hfind
            rw [h.kept nam sym₁ hfind₁]
            exact hfind
        | none =>
            rw [hfind₁] at hfind
            cases hfind₂ : t₂.find? fun sym => sym.nam = nam with
            | none => exact hfind
            | some sym₂ =>
                dsimp only
                rw [(h.extra nam sym₂ hfind₁ hfind₂).2]
                exact hfind
    · next hx =>
        rw [if_neg hx]
        exact h.kept x sym hfind
  extra x sym hfind₁ hfind₂ := by
    rw [find_symset h.nodup₁] at hfind₁
    rw [find_symset h.nodup₂] at hfind₂
    split at hfind₁
    · split at hfind₁
      · split at hfind₁ <;> cases hfind₁
      · cases hfind₁
    · next hx =>
        rw [if_neg hx] at hfind₂
        exact h.extra x sym hfind₁ hfind₂
  nodup₁ := nodup_symset h.nodup₁ val false
  nodup₂ := nodup_symset h.nodup₂ val false

/-! ## Heaps -/

def shiftNetwork (h₀ : Heap) (n : Network Nat Nat) : Network Nat Nat :=
  { n with
    ethernetList := n.ethernetList.map (· + h₀.ethers.length)
    wirelessList := n.wirelessList.map (· + h₀.wlans.length) }

def shiftEthernet (h₀ : Heap) (e : Ethernet Nat) : Ethernet Nat :=
  { e with staticopts := e.staticopts.map (· + h₀.statics.length) }

def shiftWireless (h₀ : Heap) (w : Wireless Nat Nat) : Wireless Nat Nat :=
  { w with
    staticopts := w.staticopts.map (· + h₀.statics.length)
    wpa := w.wpa.map (· + h₀.wpas.length) }

/-- The heap `h`, allocated after `h₀`. -/
def Heap.after (h h₀ : Heap) : Heap where
  conf := { h.conf with networkList := h.conf.networkList.map (· + h₀.networks.length) }
  networks := h₀.networks ++ h.networks.map (shiftNetwork h₀)
  ethers := h₀.ethers ++ h.ethers.map (shiftEthernet h₀)
  wlans := h₀.wlans ++ h.wlans.map (shiftWireless h₀)
  statics := h₀.statics ++ h.statics
  wpas := h₀.wpas ++ h.wpas

/-- An entry of a list that was allocated after others. -/
theorem getD_append_map {A B : Type} (l₀ : List B) (l : List A) (f : A → B) (p : Nat) (d : A) :
    (l₀ ++ l.map f).getD (p + l₀.length) (f d) = f (l.getD p d) := by
  rw [List.getD_append_right _ _ _ _ (by omega), Nat.add_sub_cancel, List.getD_map]

theorem modify_append_map {A B : Type} (l₀ : List B) (l : List A) (f : A → B) (p : Nat) {g : A → A}
    {g' : B → B} (h : ∀ a, g' (f a) = f (g a)) :
    (l₀ ++ l.map f).modify (p + l₀.length) g' = l₀ ++ (l.modify p g).map f := by
  induction l₀ with
  | nil =>
      induction l generalizing p with
      | nil => simp
      | cons a l ih =>
          cases p with
          | zero => simp [h]
          | succ p => simpa using ih p
  | cons b l₀ ih => simpa [← Nat.add_assoc] using ih

theorem modify_append {A : Type} (l₀ l : List A) (p : Nat) (f : A → A) :
    (l₀ ++ l).modify (p + l₀.length) f = l₀ ++ l.modify p f := by
  have hmodify : (l₀ ++ l.map id).modify (p + l₀.length) f = l₀ ++ (l.modify p f).map id :=
    modify_append_map l₀ l id p fun _ => rfl
  rwa [List.map_id, List.map_id] at hmodify

/-- The readers of the configuration see no difference. -/
theorem Heap.read_after (h h₀ : Heap) : (h.after h₀).read = h.read := by
  have hstatic : ∀ p, (h.after h₀).static (p + h₀.statics.length) = h.static p := by
    intro p
    have hget := getD_append_map h₀.statics h.statics id p StaticCfg.zero
    rw [List.map_id] at hget
    exact hget
  have hwpa : ∀ p, (h.after h₀).wpa (p + h₀.wpas.length) = h.wpa p := by
    intro p
    have hget := getD_append_map h₀.wpas h.wpas id p WpaCfg.zero
    rw [List.map_id] at hget
    exact hget
  have hethernet : ∀ p, (h.after h₀).ethernet (p + h₀.ethers.length) = h.ethernet p := by
    intro p
    have hget : (h.after h₀).ethers.getD (p + h₀.ethers.length) Ethernet.zero = _ :=
      getD_append_map h₀.ethers h.ethers (shiftEthernet h₀) p Ethernet.zero
    simp only [Heap.ethernet, hget, shiftEthernet, Option.map_map, Function.comp_def, hstatic]
  have hwireless : ∀ p, (h.after h₀).wireless (p + h₀.wlans.length) = h.wireless p := by
    intro p
    have hget : (h.after h₀).wlans.getD (p + h₀.wlans.length) Wireless.zero = _ :=
      getD_append_map h₀.wlans h.wlans (shiftWireless h₀) p Wireless.zero
    simp only [Heap.wireless, hget, shiftWireless, Option.map_map, Function.comp_def, hstatic, hwpa]
  have hnetwork : ∀ p, (h.after h₀).network (p + h₀.networks.length) = h.network p := by
    intro p
    have hget : (h.after h₀).networks.getD (p + h₀.networks.length) Network.zero = _ :=
      getD_append_map h₀.networks h.networks (shiftNetwork h₀) p Network.zero
    simp only [Heap.network, hget, shiftNetwork, List.map_map, Function.comp_def, hethernet,
      hwireless]
  rw [Heap.read, Heap.read]
  congr 1
  simp only [Heap.after, List.map_map, Function.comp_def]
  exact List.map_congr_left fun p _ => hnetwork p

/-! ## Actions side by side -/

/-- A pointer of the first parse is a shifted one in the second; where the first has
none, the second may have an old one. -/
def Points (n : Nat) (p q : Option Nat) : Prop := ∀ i, p = some i → q = some (i + n)

/-- Two parsers, of which the second one has parsed before: `h₀` is the heap it began
with. -/
structure Beside (names : List CStr) (K : Nat) (h₀ : Heap) (y z : Yy) : Prop where
  lex : Atop names K y.lex z.lex
  heap : z.heap = y.heap.after h₀
  network : Points h₀.networks.length y.network z.network
  ether : Points h₀.ethers.length y.ether z.ether
  wlan : Points h₀.wlans.length y.wlan z.wlan
  wpa : Points h₀.wpas.length y.wpa z.wpa
  staticonfig : Points h₀.statics.length y.staticonfig z.staticonfig

/-- The pointers the action of a rule follows are set. -/
structure Ready (n : Nat) (y : Yy) : Prop where
  network : n ∈ headerRules → y.network ≠ none
  ether : n ∈ ethernetRules → y.ether ≠ none ∧ y.staticonfig ≠ none
  wlan : n ∈ wirelessRules → y.wlan ≠ none ∧ y.wpa ≠ none
  static : n ∈ staticRules → y.staticonfig ≠ none

/-- Values of two actions: the defaults `v` and `w`, or the same. -/
def Alternative (v w : Val) (a b : Val) : Prop := a = v ∧ b = w ∨ b = a

section Beside

variable {names : List CStr} {K : Nat} {h₀ : Heap} {v w : Val} {vs ws : List Val} {i : Nat}

theorem withString_beside {k k' : CStr → Outcome Val Yy} (hi : ws[i]? = vs[i]?)
    (h : ∀ s, Outcome.Matches (Alternative v w) (Beside names K h₀) (k s) (k' s)) :
    Outcome.Matches (Alternative v w) (Beside names K h₀) (withString vs i k)
      (withString ws i k') := by
  rw [withString, withString, hi]
  split
  · exact h _
  · exact .crash

theorem withNumber_beside {k k' : Int → Outcome Val Yy} (hi : ws[i]? = vs[i]?)
    (h : ∀ n, Outcome.Matches (Alternative v w) (Beside names K h₀) (k n) (k' n)) :
    Outcome.Matches (Alternative v w) (Beside names K h₀) (withNumber vs i k)
      (withNumber ws i k') := by
  rw [withNumber, withNumber, hi]
  split
  · exact h _
  · exact .crash

theorem withPtr_beside {p q : Option Nat} {n : Nat} {k k' : Nat → Outcome Val Yy} (hp : p ≠ none)
    (hq : Points n p q)
    (h : ∀ i, p = some i →
      Outcome.Matches (Alternative v w) (Beside names K h₀) (k i) (k' (i + n))) :
    Outcome.Matches (Alternative v w) (Beside names K h₀) (withPtr p k) (withPtr q k') := by
  cases p with
  | none => exact absurd rfl hp
  | some i =>
      rw [hq i rfl]
      exact h i rfl

variable {y z : Yy} (h : Beside names K h₀ y z)

include h

theorem yyfail_beside (m : Message) :
    Outcome.Matches (Alternative v w) (Beside names K h₀) (yyfail m y) (yyfail m z) :=
  .error ⟨h.lex.yyerror m, h.heap, h.network, h.ether, h.wlan, h.wpa, h.staticonfig⟩

theorem ok_beside : Outcome.Matches (Alternative v w) (Beside names K h₀) (.ok v y) (.ok w z) :=
  .ok (.inl ⟨rfl, rfl⟩) h

theorem setEther_beside {f g : Ethernet Nat → Ethernet Nat} (hp : y.ether ≠ none)
    (hf : ∀ e, g (shiftEthernet h₀ e) = shiftEthernet h₀ (f e)) :
    Outcome.Matches (Alternative v w) (Beside names K h₀) (setEther v f y) (setEther w g z) :=
  withPtr_beside hp h.ether fun i _ => .ok (.inl ⟨rfl, rfl⟩)
    ⟨h.lex, by simp [h.heap, Heap.after, modify_append_map _ _ _ _ hf], h.network, h.ether, h.wlan,
      h.wpa, h.staticonfig⟩

theorem setWlan_beside {f g : Wireless Nat Nat → Wireless Nat Nat} (hp : y.wlan ≠ none)
    (hf : ∀ e, g (shiftWireless h₀ e) = shiftWireless h₀ (f e)) :
    Outcome.Matches (Alternative v w) (Beside names K h₀) (setWlan v f y) (setWlan w g z) :=
  withPtr_beside hp h.wlan fun i _ => .ok (.inl ⟨rfl, rfl⟩)
    ⟨h.lex, by simp [h.heap, Heap.after, modify_append_map _ _ _ _ hf], h.network, h.ether, h.wlan,
      h.wpa, h.staticonfig⟩

theorem setWpa_beside (f : WpaCfg → WpaCfg) (hp : y.wpa ≠ none) :
    Outcome.Matches (Alternative v w) (Beside names K h₀) (setWpa v f y) (setWpa w f z) := by
  refine withPtr_beside hp h.wpa fun i _ => .ok (.inl ⟨rfl, rfl⟩)
    ⟨h.lex, ?_, h.network, h.ether, h.wlan, h.wpa, h.staticonfig⟩
  simp [h.heap, Heap.after, modify_append]

theorem setStatic_beside (f : StaticCfg → StaticCfg) (hp : y.staticonfig ≠ none) :
    Outcome.Matches (Alternative v w) (Beside names K h₀) (setStatic v f y) (setStatic w f z) := by
  refine withPtr_beside hp h.staticonfig fun i _ => .ok (.inl ⟨rfl, rfl⟩)
    ⟨h.lex, ?_, h.network, h.ether, h.wlan, h.wpa, h.staticonfig⟩
  simp [h.heap, Heap.after, modify_append]

omit h in
theorem points_length {A B : Type} (l₀ : List B) (l : List A) (f : A → B) :
    Points l₀.length (some l.length) (some (l₀ ++ l.map f).length) := by
  intro i hi
  cases hi
  simp [Nat.add_comm]

omit h in
theorem points_append {A : Type} (l₀ l : List A) :
    Points l₀.length (some l.length) (some (l₀ ++ l).length) := by
  rw [← List.map_id l]
  have := points_length l₀ l id
  rwa [List.map_id] at this ⊢

theorem actNetwork_beside (name : CStr) :
    Outcome.Matches (Alternative v w) (Beside names K h₀) (actNetwork v name y)
      (actNetwork w name z) := by
  rw [actNetwork, actNetwork]
  split
  · exact yyfail_beside h _
  · refine .ok (.inl ⟨rfl, rfl⟩) ⟨h.lex, ?_, ?_, h.ether, h.wlan, h.wpa, h.staticonfig⟩
    · simp [h.heap, Heap.after, shiftNetwork, Network.zero, Nat.add_comm]
    · rw [h.heap]
      exact points_length _ _ _

theorem actEthernet_beside (name : CStr) (hp : y.network ≠ none) :
    Outcome.Matches (Alternative v w) (Beside names K h₀) (actEthernet v name y)
      (actEthernet w name z) := by
  refine withPtr_beside hp h.network fun i _ => .ok (.inl ⟨rfl, rfl⟩)
    ⟨h.lex, ?_, h.network, ?_, h.wlan, h.wpa, ?_⟩
  · simp only [h.heap, Heap.after, Heap.mk.injEq, true_and, and_true]
    refine ⟨modify_append_map _ _ _ _ fun n => ?_, ?_, ?_⟩
    · simp [shiftNetwork, Nat.add_comm]
    · simp [shiftEthernet, Ethernet.zero, Nat.add_comm]
    · exact List.append_assoc _ _ _
  · rw [h.heap]
    exact points_length _ _ _
  · rw [h.heap]
    exact points_append _ _

theorem actWireless_beside (name : CStr) (hp : y.network ≠ none) :
    Outcome.Matches (Alternative v w) (Beside names K h₀) (actWireless v name y)
      (actWireless w name z) := by
  refine withPtr_beside hp h.network fun i _ => .ok (.inl ⟨rfl, rfl⟩)
    ⟨h.lex, ?_, h.network, h.ether, ?_, ?_, ?_⟩
  · simp only [h.heap, Heap.after, Heap.mk.injEq, true_and]
    refine ⟨modify_append_map _ _ _ _ fun n => ?_, ?_, ?_, ?_⟩
    · simp [shiftNetwork, Nat.add_comm]
    · simp [shiftWireless, Wireless.zero, Nat.add_comm]
    · exact List.append_assoc _ _ _
    · exact List.append_assoc _ _ _
  · rw [h.heap]
    exact points_length _ _ _
  · rw [h.heap]
    exact points_append _ _
  · rw [h.heap]
    exact points_append _ _

theorem newStatic_beside : Beside names K h₀ (newStatic y) (newStatic z) where
  lex := h.lex
  heap := by simp [newStatic, h.heap, Heap.after]
  network := h.network
  ether := h.ether
  wlan := h.wlan
  wpa := h.wpa
  staticonfig := by
    rw [newStatic, newStatic, h.heap]
    exact points_append _ _

theorem actEthernetDhcp_beside (yes : Int) (hp : y.ether ≠ none) (hs : y.staticonfig ≠ none) :
    Outcome.Matches (Alternative v w) (Beside names K h₀) (actEthernetDhcp v yes y)
      (actEthernetDhcp w yes z) := by
  obtain ⟨i, hi⟩ := Option.ne_none_iff_exists'.1 hs
  have hz := h.staticonfig i hi
  have hs' : z.staticonfig ≠ none := by
    rw [hz]
    exact nofun
  simp only [actEthernetDhcp, if_neg hs, if_neg hs']
  split
  · refine setEther_beside h hp fun e => ?_
    simp [shiftEthernet, hi, hz]
  · exact setEther_beside h hp fun e => rfl

theorem actWirelessDhcp_beside (yes : Int) (hp : y.wlan ≠ none) :
    Outcome.Matches (Alternative v w) (Beside names K h₀) (actWirelessDhcp v yes y)
      (actWirelessDhcp w yes z) := by
  rw [actWirelessDhcp, actWirelessDhcp]
  split
  · refine setWlan_beside (newStatic_beside h) hp fun e => ?_
    simp [shiftWireless, newStatic, h.heap, Heap.after, Nat.add_comm]
  · exact setWlan_beside h hp fun e => rfl

theorem actGlobal_beside (n : Int) :
    Outcome.Matches (Alternative v w) (Beside names K h₀) (actGlobal v n y) (actGlobal w n z) := by
  rw [actGlobal, actGlobal]
  split
  · exact yyfail_beside h _
  · refine .ok (.inl ⟨rfl, rfl⟩) ⟨h.lex, ?_, h.network, h.ether, h.wlan, h.wpa, h.staticonfig⟩
    simp [h.heap, Heap.after]

omit h in
/-- A file is opened in both parses, if there is room for it in the second one too. -/
theorem pushfile_of_room {fs : FileSystem} {files files' : List File} {name : CStr} {secret : Bool}
    (hstdin : name ≠ CStr.lit "-" ∨ files ≠ [] ∧ files' ≠ [])
    (hlen : files.length ≤ files'.length)
    (hroom : ∀ limit ∈ fs.openMax, files.length < limit → files'.length < limit) :
    pushfile fs files' name secret = pushfile fs files name secret := by
  have hopen : fopen fs files'.length name = fopen fs files.length name := by
    rw [fopen, fopen]
    congr 1
    refine propext ⟨fun hall limit hlimit => ?_, fun hall limit hlimit => ?_⟩
    · exact Nat.lt_of_le_of_lt hlen (hall limit hlimit)
    · exact hroom limit hlimit (hall limit hlimit)
  rw [pushfile, pushfile, if_neg, if_neg, hopen]
  · rintro ⟨hnil, hname⟩
    exact hstdin.elim (· hname) fun hne => hne.1 hnil
  · rintro ⟨hnil, hname⟩
    exact hstdin.elim (· hname) fun hne => hne.2 hnil

theorem actInclude_beside (fs : FileSystem) (name : CStr)
    (hroom : ∀ limit ∈ fs.openMax, y.lex.files.length < limit → y.lex.files.length + K < limit) :
    Outcome.Matches (Alternative v w) (Beside names K h₀) (actInclude fs v name y)
      (actInclude fs w name z) := by
  obtain ⟨k, hk, hfiles⟩ := h.lex.files
  have hlen : z.lex.files.length = y.lex.files.length + k := by
    simpa using congrArg List.length hfiles
  have hpush : pushfile fs z.lex.files name true = pushfile fs y.lex.files name true := by
    refine pushfile_of_room (.inr ⟨List.cons_ne_nil _ _, List.cons_ne_nil _ _⟩) (by omega) fun limit hlimit hlt => ?_
    have := hroom limit hlimit hlt
    omega
  have hpush' : pushfile fs (z.lex.file :: z.lex.prev) name true =
      pushfile fs (y.lex.file :: y.lex.prev) name true := hpush
  rw [actInclude, actInclude, hpush']
  cases pushfile fs (y.lex.file :: y.lex.prev) name true with
  | none => exact yyfail_beside h _
  | some nfile =>
      have hatop : Atop names K { y.lex with file := nfile, prev := y.lex.file :: y.lex.prev }
          { z.lex with file := nfile, prev := z.lex.file :: z.lex.prev } :=
        ⟨⟨k, hk, congrArg (nfile.data :: ·) hfiles⟩, h.lex.parsebuf, h.lex.pushback, h.lex.symhead,
          h.lex.val⟩
      exact .ok (.inl ⟨rfl, rfl⟩)
        ⟨hatop.lungetc (ch '\n'), h.heap, h.network, h.ether, h.wlan, h.wpa,
        h.staticonfig⟩

theorem grammarError_beside :
    Outcome.Matches (Alternative v w) (Beside names K h₀)
      (.ok v { y with
        lex := { y.lex with file := { y.lex.file with errors := y.lex.file.errors + 1 } }
        grammarErrors := y.grammarErrors + 1 })
      (.ok w { z with
        lex := { z.lex with file := { z.lex.file with errors := z.lex.file.errors + 1 } }
        grammarErrors := z.grammarErrors + 1 }) :=
  .ok (.inl ⟨rfl, rfl⟩)
    ⟨⟨(h.lex.yyerror .syntaxError).files, h.lex.parsebuf, h.lex.pushback, h.lex.symhead, h.lex.val⟩,
      h.heap, h.network, h.ether, h.wlan, h.wpa, h.staticonfig⟩

theorem varset_beside (nam val : CStr) :
    Outcome.Matches (Alternative v w) (Beside names K h₀)
      (.ok v { y with lex := { y.lex with symhead := symset nam val false y.lex.symhead } })
      (.ok w { z with lex := { z.lex with symhead := symset nam val false z.lex.symhead } }) :=
  .ok (.inl ⟨rfl, rfl⟩)
    ⟨⟨h.lex.files, h.lex.parsebuf, h.lex.pushback, h.lex.symhead.symset nam val, h.lex.val⟩,
      h.heap, h.network, h.ether, h.wlan, h.wpa, h.staticonfig⟩

/-- The actions do the same in both parses. -/
theorem action_beside {fs : FileSystem} {n : Nat} (hvs : ∀ i < reads n, ws[i]? = vs[i]?)
    (hready : Ready n y)
    (hroom : n = 15 → ∀ limit ∈ fs.openMax, y.lex.files.length < limit →
      y.lex.files.length + K < limit) :
    Outcome.Matches (Alternative v w) (Beside names K h₀) (action fs n vs v y)
      (action fs n ws w z) := by
  unfold action
  split
  all_goals first
    | exact ok_beside h
    | exact .ok (.inr rfl) h
    | exact withString_beside (hvs 0 (by decide)) fun _ =>
        setEther_beside h (hready.ether (by decide)).1 fun _ => rfl
    | exact withNumber_beside (hvs 0 (by decide)) fun _ =>
        setEther_beside h (hready.ether (by decide)).1 fun _ => rfl
    | exact withString_beside (hvs 0 (by decide)) fun _ =>
        setWlan_beside h (hready.wlan (by decide)).1 fun _ => rfl
    | exact withNumber_beside (hvs 0 (by decide)) fun _ =>
        setWlan_beside h (hready.wlan (by decide)).1 fun _ => rfl
    | exact withString_beside (hvs 0 (by decide)) fun _ =>
        setWpa_beside h _ (hready.wlan (by decide)).2
    | exact withString_beside (hvs 0 (by decide)) fun _ =>
        setStatic_beside h _ (hready.static (by decide))
    | exact withNumber_beside (hvs 0 (by decide)) fun _ => actGlobal_beside h _
    | exact withString_beside (hvs 0 (by decide)) fun _ => actNetwork_beside h _
    | exact withString_beside (hvs 0 (by decide)) fun _ =>
        actEthernet_beside h _ (hready.network (by decide))
    | exact withString_beside (hvs 0 (by decide)) fun _ =>
        actWireless_beside h _ (hready.network (by decide))
    | exact withNumber_beside (hvs 0 (by decide)) fun _ =>
        actEthernetDhcp_beside h _ (hready.ether (by decide)).1 (hready.ether (by decide)).2
    | exact withNumber_beside (hvs 0 (by decide)) fun _ =>
        actWirelessDhcp_beside h _ (hready.wlan (by decide)).1
    | exact withString_beside (hvs 0 (by decide)) fun _ => actInclude_beside h fs _ (hroom rfl)
    | exact withString_beside (hvs 1 (by decide)) fun _ =>
        withString_beside (hvs 0 (by decide)) fun _ => .ok (.inr rfl) h
    | exact withString_beside (hvs 1 (by decide)) fun _ =>
        withString_beside (hvs 0 (by decide)) fun _ => varset_beside h _ _
    | exact grammarError_beside h
    | exact .ok (.inl ⟨rfl, rfl⟩)
        ⟨h.lex, h.heap, nofun, h.ether, h.wlan, h.wpa, h.staticonfig⟩
    | exact .ok (.inl ⟨rfl, rfl⟩) ⟨h.lex, h.heap, h.network, nofun, h.wlan, h.wpa, nofun⟩
    | exact .ok (.inl ⟨rfl, rfl⟩)
        ⟨h.lex, h.heap, h.network, nofun, nofun, h.wpa, h.staticonfig⟩

/-- Where the value of a rule is read later and is not that of its right side, it is the
same in both. -/
theorem action_beside_value {fs : FileSystem} {n : Nat} (hn : n ∈ [13, 14, 16])
    (hvs : ∀ i < reads n, ws[i]? = vs[i]?) :
    Outcome.Matches (fun a b => b = a) (Beside names K h₀) (action fs n vs v y)
      (action fs n ws w z) := by
  simp only [List.mem_cons, List.not_mem_nil, or_false] at hn
  rcases hn with rfl | rfl | rfl
  · exact .ok rfl h
  · exact .ok rfl h
  · simp only [action, withString, hvs 0 (by decide), hvs 1 (by decide)]
    split
    · split
      · exact .ok rfl h
      · exact .crash
    · exact .crash

end Beside

end Ifconfigd.Parse
