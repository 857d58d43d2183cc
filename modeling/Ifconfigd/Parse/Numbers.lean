import Ifconfigd.Parse.Notes

/-!
# Numbers in a configuration

A number in the file reaches its member through three types: the text, the 64-bit value
of the token, and the `int` of the member. Each number is noted with the member it is
meant for, and what a member holds at the end is the last number noted for it, cut down
to an `int`.
-/

namespace Ifconfigd.Parse

open CLib Yacc

/-- The members that hold a number. A section is given by its place on the heap. -/
inductive Slot
  | updateInterval
  | etherPriority (p : Nat)
  | wlanPriority (p : Nat)
  | chan (p : Nat)
  | minsignal (p : Nat)
  deriving DecidableEq

/-- What the member holds, if its section exists. -/
def Slot.value (h : Heap) : Slot → Option Int
  | .updateInterval => some h.conf.upinterval
  | .etherPriority p => h.ethers[p]?.map Ethernet.priority
  | .wlanPriority p => h.wlans[p]?.map Wireless.priority
  | .chan p => h.wlans[p]?.map Wireless.channel
  | .minsignal p => h.wlans[p]?.map Wireless.minsignal

/-- The numbers, as they are read, with the members they are meant for. -/
def numberNote (n : Nat) (vs : List Val) (y : Yy) : List (Slot × Int) :=
  match n, vs with
  | 19, .number k :: _ => [(.updateInterval, k)]
  | 35, .number k :: _ => y.ether.toList.map fun p => (.etherPriority p, k)
  | 50, .number k :: _ => y.wlan.toList.map fun p => (.wlanPriority p, k)
  | 53, .number k :: _ => y.wlan.toList.map fun p => (.chan p, k)
  | 55, .number k :: _ => y.wlan.toList.map fun p => (.minsignal p, k)
  | _, _ => []

/-- The number given last for a member. -/
def lastNumber (s : Slot) (ls : List (Slot × Int)) : Option Int :=
  lastOf (fun l => if l.1 = s then some l.2 else none) ls

theorem lastNumber_concat_self (s : Slot) (k : Int) (ls : List (Slot × Int)) :
    lastNumber s (ls ++ [(s, k)]) = some k := by
  rw [lastNumber, lastOf_append, lastOf_singleton, if_pos rfl, Option.some_or]

theorem lastNumber_concat_of_ne {s s' : Slot} (h : s' ≠ s) (k : Int) (ls : List (Slot × Int)) :
    lastNumber s (ls ++ [(s', k)]) = lastNumber s ls := by
  rw [lastNumber, lastOf_append, lastOf_singleton, if_neg h, Option.none_or]
  rfl

/-! ## What the members hold -/

/-- The pointers to the current sections point into the heap. -/
structure InHeap (y : Yy) : Prop where
  ether : ∀ p, y.ether = some p → p < y.heap.ethers.length
  wlan : ∀ p, y.wlan = some p → p < y.heap.wlans.length

/-- Each member holds the number given last for it, as an `int`, and the interval passed the
test of the 64-bit value. -/
structure NumbersRead (ls : List (Slot × Int)) (y : Yy) : Prop where
  inHeap : InHeap y
  value : ∀ s k, lastNumber s ls = some k → s.value y.heap = some (toInt k)
  interval : ∀ k, lastNumber .updateInterval ls = some k → minUpdateInterval ≤ k

/-- From `y` to `z` no number was stored. -/
structure NumbersKept (y z : Yy) : Prop where
  inHeap : InHeap y → InHeap z
  value : ∀ (s : Slot) v, s.value y.heap = some v → s.value z.heap = some v

section Actions

variable {ls : List (Slot × Int)} {y z : Yy} {v : Val}

theorem NumbersRead.kept (h : NumbersRead ls y) (hz : NumbersKept y z) : NumbersRead ls z where
  inHeap := hz.inHeap h.inHeap
  value s k hs := hz.value s _ (h.value s k hs)
  interval := h.interval

/-- A number is stored. -/
theorem NumbersRead.store (h : NumbersRead ls y) {s : Slot} {k : Int} (hz : InHeap z)
    (hs : s.value z.heap = some (toInt k))
    (hother : ∀ s' ≠ s, ∀ v, s'.value y.heap = some v → s'.value z.heap = some v)
    (hk : s = .updateInterval → minUpdateInterval ≤ k) : NumbersRead (ls ++ [(s, k)]) z where
  inHeap := hz
  value s' k' hlast := by
    by_cases heq : s = s'
    · subst heq
      rw [lastNumber_concat_self] at hlast
      cases hlast
      exact hs
    · rw [lastNumber_concat_of_ne heq] at hlast
      exact hother s' (Ne.symm heq) _ (h.value s' k' hlast)
  interval k' hlast := by
    by_cases heq : s = .updateInterval
    · subst heq
      rw [lastNumber_concat_self] at hlast
      cases hlast
      exact hk rfl
    · rw [lastNumber_concat_of_ne heq] at hlast
      exact h.interval k' hlast

theorem NumbersKept.of_same (hether : ∀ p, z.ether = some p → y.ether = some p)
    (hwlan : ∀ p, z.wlan = some p → y.wlan = some p)
    (hinterval : z.heap.conf.upinterval = y.heap.conf.upinterval)
    (hethers : z.heap.ethers = y.heap.ethers) (hwlans : z.heap.wlans = y.heap.wlans) :
    NumbersKept y z where
  inHeap h := ⟨fun p hp => hethers ▸ h.ether p (hether p hp),
    fun p hp => hwlans ▸ h.wlan p (hwlan p hp)⟩
  value s v hv := by
    cases s <;> simpa only [Slot.value, hinterval, hethers, hwlans] using hv

/-- A member of the records of a list that an update leaves alone. -/
theorem getElem?_modify_map {A : Type} {f : A → A} {g : A → Int} {l : List A} {p q : Nat}
    (h : q = p → ∀ a, g (f a) = g a) : (l.modify p f)[q]?.map g = l[q]?.map g := by
  by_cases hq : q = p
  · rw [← List.getElem?_map, map_modify_of_eq (h hq), List.getElem?_map]
  · simp [Ne.symm hq]

theorem setEther_numbersKept {f : Ethernet Nat → Ethernet Nat}
    (hf : ∀ e, (f e).priority = e.priority) : (setEther v f y).Holds (NumbersKept y) := by
  refine withPtr_holds fun p => ⟨fun h => ⟨?_, h.wlan⟩, ?_⟩
  · simpa using h.ether
  · intro s v hv
    cases s with
    | etherPriority q => exact (getElem?_modify_map fun _ => hf).trans hv
    | _ => exact hv

theorem setWlan_numbersKept {f : Wireless Nat Nat → Wireless Nat Nat}
    (hf : ∀ w, (f w).priority = w.priority ∧ (f w).channel = w.channel ∧
      (f w).minsignal = w.minsignal) : (setWlan v f y).Holds (NumbersKept y) := by
  refine withPtr_holds fun p => ⟨fun h => ⟨h.ether, ?_⟩, ?_⟩
  · simpa using h.wlan
  · intro s v hv
    cases s with
    | wlanPriority q => exact (getElem?_modify_map fun _ w => (hf w).1).trans hv
    | chan q => exact (getElem?_modify_map fun _ w => (hf w).2.1).trans hv
    | minsignal q => exact (getElem?_modify_map fun _ w => (hf w).2.2).trans hv
    | _ => exact hv

/-- A new section at the end of its list leaves the others alone. -/
theorem getElem?_append_map {A : Type} {g : A → Int} {l : List A} (a : A) {p : Nat} {v : Int}
    (h : l[p]?.map g = some v) : (l ++ [a])[p]?.map g = some v := by
  obtain ⟨b, hb, rfl⟩ := Option.map_eq_some_iff.1 h
  rw [List.getElem?_append_left (List.getElem?_eq_some_iff.1 hb).1, hb]
  rfl

theorem actEthernet_numbersKept (name : CStr) :
    (actEthernet v name y).Holds (NumbersKept y) := by
  refine withPtr_holds fun _ => ⟨fun h => ⟨?_, h.wlan⟩, ?_⟩
  · rintro _ ⟨⟩
    simp
  · intro s v hv
    cases s with
    | etherPriority p => exact getElem?_append_map _ hv
    | _ => exact hv

theorem actWireless_numbersKept (name : CStr) :
    (actWireless v name y).Holds (NumbersKept y) := by
  refine withPtr_holds fun _ => ⟨fun h => ⟨h.ether, ?_⟩, ?_⟩
  · rintro _ ⟨⟩
    simp
  · intro s v hv
    cases s with
    | wlanPriority p => exact getElem?_append_map _ hv
    | chan p => exact getElem?_append_map _ hv
    | minsignal p => exact getElem?_append_map _ hv
    | _ => exact hv

theorem actEthernetDhcp_numbersKept (yes : Int) :
    (actEthernetDhcp v yes y).Holds (NumbersKept y) := by
  simp only [actEthernetDhcp]
  split
  · split
    · apply Outcome.Holds.mono (P := NumbersKept (newStatic y))
      · exact setEther_numbersKept fun _ => rfl
      · exact fun z hz => ⟨fun h => hz.inHeap ⟨h.ether, h.wlan⟩, hz.value⟩
    · exact setEther_numbersKept fun _ => rfl
  · exact setEther_numbersKept fun _ => rfl

theorem actWirelessDhcp_numbersKept (yes : Int) :
    (actWirelessDhcp v yes y).Holds (NumbersKept y) := by
  simp only [actWirelessDhcp]
  split
  · apply Outcome.Holds.mono (P := NumbersKept (newStatic y))
    · exact setWlan_numbersKept fun _ => ⟨rfl, rfl, rfl⟩
    · exact fun z hz => ⟨fun h => hz.inHeap ⟨h.ether, h.wlan⟩, hz.value⟩
  · exact setWlan_numbersKept fun _ => ⟨rfl, rfl, rfl⟩

theorem numberNote_of_not_mem {n : Nat} (hn : n ∉ [19, 35, 50, 53, 55]) (vs : List Val) (y : Yy) :
    numberNote n vs y = [] := by
  unfold numberNote
  split <;> simp_all

/-- An action that reads no number. -/
theorem action_numbersKept (fs : FileSystem) {n : Nat} (hn : n ∉ [19, 35, 50, 53, 55])
    (vs : List Val) : (action fs n vs v y).Holds (NumbersKept y) := by
  unfold action
  split
  all_goals first
    | exact absurd (by decide) hn
    | exact .of_same (fun _ h => h) (fun _ h => h) rfl rfl rfl
    | exact .of_same (fun _ h => by cases h) (fun _ h => h) rfl rfl rfl
    | exact .of_same (fun _ h => by cases h) (fun _ h => by cases h) rfl rfl rfl
    | exact withString_holds fun _ => withPtr_holds fun _ =>
        .of_same (fun _ h => h) (fun _ h => h) rfl rfl rfl
    | exact withString_holds fun _ => withString_holds fun _ =>
        .of_same (fun _ h => h) (fun _ h => h) rfl rfl rfl
    | exact withString_holds fun _ => setEther_numbersKept fun _ => rfl
    | exact withString_holds fun _ => setWlan_numbersKept fun _ => ⟨rfl, rfl, rfl⟩
    | exact withNumber_holds fun _ => actEthernetDhcp_numbersKept _
    | exact withNumber_holds fun _ => actWirelessDhcp_numbersKept _
    | exact withString_holds fun _ => actEthernet_numbersKept _
    | exact withString_holds fun _ => actWireless_numbersKept _
    | exact withString_holds fun _ => by
        simp only [actInclude]
        split <;> exact .of_same (fun _ h => h) (fun _ h => h) rfl rfl rfl
    | exact withString_holds fun _ => by
        simp only [actNetwork]
        split <;> exact .of_same (fun _ h => h) (fun _ h => h) rfl rfl rfl

theorem NumbersRead.global (h : NumbersRead ls y) (k : Int) :
    Returns (NumbersRead (ls ++ [(.updateInterval, k)])) (actGlobal v k y) := by
  simp only [actGlobal]
  split
  · exact returns_yyfail _ _
  · next hk =>
      refine returns_ok (h.store ⟨h.inHeap.ether, h.inHeap.wlan⟩ rfl ?_ fun _ => Int.not_lt.1 hk)
      intro s hs v hv
      cases s with
      | updateInterval => exact absurd rfl hs
      | _ => exact hv

theorem NumbersRead.etherPriority (h : NumbersRead ls y) (k : Int) :
    Returns (NumbersRead (ls ++ y.ether.toList.map fun p => (.etherPriority p, k)))
      (setEther v (fun e => { e with priority := toInt k }) y) := by
  cases hp : y.ether with
  | none => simp [setEther, hp, withPtr, Returns]
  | some p =>
      have hlt := h.inHeap.ether p hp
      simp only [setEther, hp, withPtr]
      refine returns_ok (h.store ⟨?_, h.inHeap.wlan⟩ ?_ ?_ fun hs => by cases hs)
      · rintro _ ⟨⟩
        simpa using hlt
      · simp [Slot.value, hlt]
      · intro s hs v hv
        cases s with
        | etherPriority q =>
            refine (getElem?_modify_map fun hq => ?_).trans hv
            exact absurd (congrArg Slot.etherPriority hq) hs
        | _ => exact hv

/-- One of the numbers of a wireless section; the others stay. -/
theorem NumbersRead.wlanNumber (h : NumbersRead ls y) {slot : Nat → Slot} {k : Int}
    {get : Wireless Nat Nat → Int} {f : Wireless Nat Nat → Wireless Nat Nat}
    (hget : ∀ h p, (slot p).value h = h.wlans[p]?.map get) (hset : ∀ w, get (f w) = toInt k)
    (hk : ∀ p, slot p ≠ .updateInterval)
    (hpriority : slot = .wlanPriority ∨ ∀ w, (f w).priority = w.priority)
    (hchan : slot = .chan ∨ ∀ w, (f w).channel = w.channel)
    (hminsignal : slot = .minsignal ∨ ∀ w, (f w).minsignal = w.minsignal) :
    Returns (NumbersRead (ls ++ y.wlan.toList.map fun p => (slot p, k))) (setWlan v f y) := by
  cases hp : y.wlan with
  | none => simp [setWlan, hp, withPtr, Returns]
  | some p =>
      have hlt := h.inHeap.wlan p hp
      -- A slot of the same section is the one that is set, or its number stays.
      have hstay : ∀ {slot' : Nat → Slot} {q : Nat} {g : Wireless Nat Nat → Int},
          (slot = slot' ∨ ∀ w, g (f w) = g w) → slot' q ≠ slot p → q = p →
            ∀ w, g (f w) = g w := by
        rintro slot' q g (rfl | hg) hne rfl
        · exact absurd rfl hne
        · exact hg
      simp only [setWlan, hp, withPtr]
      refine returns_ok (h.store ⟨h.inHeap.ether, ?_⟩ ?_ ?_ fun heq => absurd heq (hk p))
      · rintro _ ⟨⟩
        simpa using hlt
      · simp [hget, hlt, hset]
      · intro s hs v hv
        cases s with
        | wlanPriority q => exact (getElem?_modify_map (hstay hpriority hs)).trans hv
        | chan q => exact (getElem?_modify_map (hstay hchan hs)).trans hv
        | minsignal q => exact (getElem?_modify_map (hstay hminsignal hs)).trans hv
        | _ => exact hv

/-- Each action. -/
theorem NumbersRead.action (h : NumbersRead ls y) (fs : FileSystem) (n : Nat) (vs : List Val) :
    Returns (NumbersRead (ls ++ numberNote n vs y)) (action fs n vs v y) := by
  by_cases hn : n ∈ [19, 35, 50, 53, 55]
  · simp only [List.mem_cons, List.not_mem_nil, or_false] at hn
    rcases hn with rfl | rfl | rfl | rfl | rfl
    all_goals
      refine withNumber_returns ?_
      rintro k vs' rfl
    · exact h.global k
    · exact h.etherPriority k
    · exact h.wlanNumber (fun _ _ => rfl) (fun _ => rfl) nofun (.inl rfl) (.inr fun _ => rfl)
        (.inr fun _ => rfl)
    · exact h.wlanNumber (fun _ _ => rfl) (fun _ => rfl) nofun (.inr fun _ => rfl) (.inl rfl)
        (.inr fun _ => rfl)
    · exact h.wlanNumber (fun _ _ => rfl) (fun _ => rfl) nofun (.inr fun _ => rfl)
        (.inr fun _ => rfl) (.inl rfl)
  · rw [numberNote_of_not_mem hn, List.append_nil]
    exact returns_of_holds ((action_numbersKept fs hn vs).mono fun z hz => h.kept hz)

end Actions

/-- What the numbers noted in a run say about its end. -/
theorem numbersRead_of_notedIn {fs : FileSystem} {filename : CStr} {symhead : List Sym}
    {ls : List (Slot × Int)} {q : State Token Val Yy}
    (h : NotedIn fs numberNote filename (.initial symhead) ls q) : NumbersRead ls q.client := by
  refine h.holds ?_ ?_ ?_
  · exact fun _ => ⟨⟨nofun, nofun⟩, nofun, nofun⟩
  · exact fun _ _ _ h => ⟨⟨h.inHeap.ether, h.inHeap.wlan⟩, h.value, h.interval⟩
  · exact fun _ n vs _ v z h hz => h.action fs n vs v z hz

/-! ## Which numbers survive -/

/-- The numbers an `int` can hold. -/
def InInt (k : Int) : Prop := -2 ^ 31 ≤ k ∧ k < 2 ^ 31

theorem toInt_eq_iff (k : Int) : toInt k = k ↔ InInt k := by
  constructor
  · intro h
    have hle := Int.le_bmod (x := k) (m := 2 ^ 32) (by decide)
    have hlt := Int.bmod_lt (x := k) (m := 2 ^ 32) (by decide)
    rw [show k.bmod (2 ^ 32) = k from h] at hle hlt
    exact ⟨by simpa using hle, by simpa using hlt⟩
  · rintro ⟨hle, hlt⟩
    exact Int.bmod_eq_of_le (by simpa using hle) (by simpa using hlt)

/-- Every member holds the number given last for it, and an interval that was given is as
long as it has to be. -/
structure NumbersSurvive (ls : List (Slot × Int)) (h : Heap) : Prop where
  exact : ∀ s k, lastNumber s ls = some k → s.value h = some k
  interval : ∀ k, lastNumber .updateInterval ls = some k → minUpdateInterval ≤ h.conf.upinterval

/-- In every accepted configuration the numbers are those written in the file exactly if
each one that counts fits in an `int`. -/
theorem numbers_survive_iff {fs : FileSystem} {fuel : Nat} {filename : CStr}
    {symhead : List Sym} {conf : IfconfigdConf} {g : Globals}
    (haccepted : parseConfig fs fuel filename (.initial symhead) = some (.returned (some conf) g))
    {ls : List (Slot × Int)} {q : State Token Val Yy}
    (hnoted : NotedIn fs numberNote filename (.initial symhead) ls q) :
    conf = q.client.heap.read ∧
      (NumbersSurvive ls q.client.heap ↔ ∀ s k, lastNumber s ls = some k → InInt k) := by
  have hread := numbersRead_of_notedIn hnoted
  refine ⟨hnoted.read haccepted, ?_, ?_⟩
  · intro h s k hlast
    have hvalue := (hread.value s k hlast).symm.trans (h.exact s k hlast)
    exact (toInt_eq_iff k).1 (Option.some.inj hvalue)
  · intro h
    have hexact : ∀ s k, lastNumber s ls = some k → s.value q.client.heap = some k := by
      intro s k hlast
      rw [hread.value s k hlast, (toInt_eq_iff k).2 (h s k hlast)]
    refine ⟨hexact, fun k hlast => ?_⟩
    rw [Option.some.inj (hexact .updateInterval k hlast)]
    exact hread.interval k hlast

/-- A configuration with an update interval. -/
def oneInterval (literal : String) : FileSystem where
  stdin := asciiBytes "update_interval " ++ asciiBytes literal ++ asciiBytes "\n"
  inode _ := none
  uid := 0
  openMax := none

theorem noted_of_oneInterval {literal : String} {k : Int}
    (h : (notesOf (oneInterval literal) numberNote (.lit "-") (.initial []) 11).any
      (fun x => x.1 = [(.updateInterval, k)]) = true) :
    ∃ q, NotedIn (oneInterval literal) numberNote (.lit "-") (.initial [])
      [(.updateInterval, k)] q := by
  obtain ⟨⟨ls, q⟩, hnotes, hls⟩ := (Option.any_eq_true _ _).1 h
  cases of_decide_eq_true hls
  exact ⟨q, notedIn_of_notesOf hnotes⟩

theorem numbers_survive_iff_thirty :
    ∃ conf g q, parseConfig (oneInterval "30") 100 (.lit "-") (.initial []) =
        some (.returned (some conf) g) ∧
      NotedIn (oneInterval "30") numberNote (.lit "-") (.initial []) [(.updateInterval, 30)] q ∧
      NumbersSurvive [(.updateInterval, 30)] q.client.heap := by
  have hparse : acceptedWith (fun _ _ => true)
      (parseConfig (oneInterval "30") 100 (.lit "-") (.initial [])) = true := by
    decide +kernel
  obtain ⟨conf, g, hconf, -⟩ := exists_of_acceptedWith hparse
  obtain ⟨q, hnoted⟩ := @noted_of_oneInterval "30" 30 (by decide +kernel)
  refine ⟨conf, g, q, hconf, hnoted, (numbers_survive_iff hconf hnoted).2.2 ?_⟩
  intro s k hlast
  by_cases hs : s = .updateInterval
  · subst hs
    cases hlast
    exact ⟨by decide, by decide⟩
  · simp [lastNumber, lastOf, Ne.symm hs] at hlast

/-- An interval of 2^32 + 1 seconds passes the test and is stored as one second. -/
theorem interval_wraps :
    ∃ conf g q, parseConfig (oneInterval "4294967297") 100 (.lit "-") (.initial []) =
        some (.returned (some conf) g) ∧ conf.upinterval = 1 ∧
      NotedIn (oneInterval "4294967297") numberNote (.lit "-") (.initial [])
        [(.updateInterval, 4294967297)] q ∧
      ¬NumbersSurvive [(.updateInterval, 4294967297)] q.client.heap := by
  have hparse : acceptedWith (fun conf _ => conf.upinterval = 1)
      (parseConfig (oneInterval "4294967297") 100 (.lit "-") (.initial [])) = true := by
    decide +kernel
  obtain ⟨conf, g, hconf, hinterval⟩ := exists_of_acceptedWith hparse
  have hone : conf.upinterval = 1 := of_decide_eq_true hinterval
  obtain ⟨q, hnoted⟩ := @noted_of_oneInterval "4294967297" 4294967297 (by decide +kernel)
  refine ⟨conf, g, q, hconf, hone, hnoted, fun h => ?_⟩
  have hlong := h.interval 4294967297 rfl
  rw [hnoted.read hconf] at hone
  rw [show q.client.heap.conf.upinterval = 1 from hone] at hlong
  revert hlong
  decide

end Ifconfigd.Parse
