import Ifconfigd.Parse.Statements

/-!
# The parser on printed sections

What the options and sections of a printed configuration do to the globals of the parser.
Inside a section its structures are the last ones in the heap, and each option sets a
member of one of them.
-/

namespace Ifconfigd.Parse

open CLib Yacc

/-! ## Options -/

section Options

variable {fs : FileSystem} {b : Block} {below : List Nat} {y y' : Yy} {rules : List Nat} {n : Nat}
  {a : Token} {depth : Nat}

theorem does_string (hn : n ∉ [7, 15, 18]) {s : CStr}
    (h : ∀ v vs, action fs n (.string s :: vs) v y = .ok v y') :
    Does tables (act fs) (some (.string s)) [n] y y' :=
  .action fun vs => ⟨_, act_of_action hn (h _ vs)⟩

theorem does_number (hn : n ∉ [7, 15, 18]) {i : Int}
    (h : ∀ v vs, action fs n (.number i :: vs) v y = .ok v y') :
    Does tables (act fs) (some (.number i)) [n] y y' :=
  .action fun vs => ⟨_, act_of_action hn (h _ vs)⟩

/-- Getting over an option that may be there or not. -/
theorem over_optional {α : Type} {K : List Control} {o : Option α} {f : α → Line} {g : α → Yy}
    (h : ∀ x, (source fs).Over tables K y (f x).tokens (g x)) (hy : y' = o.elim y g) :
    (source fs).Over tables K y ((o.map f).toList.flatMap Line.tokens) y' := by
  subst hy
  cases o with
  | none => exact .refl
  | some x => simpa using h x

variable (hb : b ∈ blocks) (hbelow : below ∈ b.below) {X : Type} (state : X → Yy) (x : X)
  {post : List Nat}

include hb hbelow

/-- An option with a string, whose action sets something in the section. -/
theorem over_string {max : Nat} (o : Option (Text max)) (ho : (a, .string, n :: post) ∈ b.options)
    (hn : n ∉ [7, 15, 18]) (hpost : ∀ m ∈ post, m ∈ silentRules) (f : CStr → X → X)
    (h : ∀ s v vs, action fs n (.string s :: vs) v (state x) = .ok v (state (f s x)))
    (x' : X) (hx : x' = o.elim x fun t => f t.str x) :
    (source fs).Over tables (b.places below) (state x)
      ((stringLines depth a o).flatMap Line.tokens) (state x') := by
  refine over_optional (g := fun t => state (f t.str x)) (fun t => over_option hb hbelow ho ?_) ?_
  · exact Does.append (does_string hn (h t.str)) fun m hm => silent_of_mem (hpost m hm)
  · rw [hx]
    cases o <;> rfl

/-- An option with a number. -/
theorem over_number (o : Option CInt) (ho : (a, .number, [n]) ∈ b.options) (hn : n ∉ [7, 15, 18])
    (f : Int → X → X)
    (h : ∀ i v vs, action fs n (.number i :: vs) v (state x) = .ok v (state (f i x)))
    (x' : X) (hx : x' = o.elim x fun i => f i.val x) :
    (source fs).Over tables (b.places below) (state x)
      ((numberLines depth a o).flatMap Line.tokens) (state x') := by
  refine over_optional (g := fun i => state (f i.val x)) (fun i => over_option hb hbelow ho ?_) ?_
  · exact does_number hn (h i.val)
  · rw [hx]
    cases o <;> rfl

/-- The option `dhcp`, where `n` is the rule for it. -/
theorem over_dhcp {o : Option Bool} (hyes : (.dhcp, .yes, [13, n]) ∈ b.options)
    (hno : (.dhcp, .no, [14, n]) ∈ b.options) {g : Bool → Yy}
    (h : ∀ yes : Bool, Does tables (act fs) (some (.number yes.toInt)) [n] y (g yes))
    (hy : y' = o.elim y g) :
    (source fs).Over tables (b.places below) y ((dhcpLines depth o).flatMap Line.tokens) y' := by
  refine over_optional (fun yes => ?_) hy
  cases yes with
  | false => exact over_option hb hbelow hno (.replace rfl (fun vs => rfl) (h false))
  | true => exact over_option hb hbelow hyes (.replace rfl (fun vs => rfl) (h true))

end Options

/-! ## Sections -/

theorem withPtr_some {p : Option Nat} {i : Nat} (h : p = some i) (k : Nat → Outcome Val Yy) :
    withPtr p k = k i := by
  rw [h, withPtr]

theorem modify_concat {α : Type} (l : List α) (x : α) (f : α → α) :
    (l ++ [x]).modify l.length f = l ++ [f x] := by
  induction l with
  | nil => rfl
  | cons z l ih => rw [List.cons_append, List.length_cons, List.modify_succ_cons, ih, List.cons_append]

/-- The globals inside an ethernet section, whose structures come last in the heap. -/
def inEther (y : Yy) (e : Ethernet Nat) (c : StaticCfg) : Yy :=
  { y with
    ether := some y.heap.ethers.length
    staticonfig := some y.heap.statics.length
    heap := { y.heap with
      ethers := y.heap.ethers ++ [e]
      statics := y.heap.statics ++ [c] } }

/-- The globals inside a wireless section. The structures `cs` were allocated for static
options and are not used any more. -/
def inWlan (y : Yy) (w : Wireless Nat Nat) (cs : List StaticCfg) (c : StaticCfg) (p : WpaCfg) : Yy :=
  { y with
    wlan := some y.heap.wlans.length
    staticonfig := some (y.heap.statics ++ cs).length
    wpa := some y.heap.wpas.length
    heap := { y.heap with
      wlans := y.heap.wlans ++ [w]
      statics := y.heap.statics ++ cs ++ [c]
      wpas := y.heap.wpas ++ [p] } }

section Setters

variable (y : Yy) (e : Ethernet Nat) (w : Wireless Nat Nat) (cs : List StaticCfg) (c : StaticCfg)
  (p : WpaCfg) (v : Val)

theorem setEther_inEther (f : Ethernet Nat → Ethernet Nat) :
    setEther v f (inEther y e c) = .ok v (inEther y (f e) c) := by
  simp only [setEther, withPtr, inEther, modify_concat]

theorem setStatic_inEther (f : StaticCfg → StaticCfg) :
    setStatic v f (inEther y e c) = .ok v (inEther y e (f c)) := by
  simp only [setStatic, withPtr, inEther, modify_concat]

theorem setWlan_inWlan (f : Wireless Nat Nat → Wireless Nat Nat) :
    setWlan v f (inWlan y w cs c p) = .ok v (inWlan y (f w) cs c p) := by
  simp only [setWlan, withPtr, inWlan, modify_concat]

theorem setStatic_inWlan (f : StaticCfg → StaticCfg) :
    setStatic v f (inWlan y w cs c p) = .ok v (inWlan y w cs (f c) p) := by
  simp only [setStatic, withPtr, inWlan, modify_concat]

theorem setWpa_inWlan (f : WpaCfg → WpaCfg) :
    setWpa v f (inWlan y w cs c p) = .ok v (inWlan y w cs c (f p)) := by
  simp only [setWpa, withPtr, inWlan, modify_concat]

end Setters

theorem toInt_val (i : CInt) : toInt i.val = i.val := by
  have := i.low
  have := i.high
  exact Int.bmod_eq_of_le (by norm_num; omega) (by norm_num; omega)

/-- The static options, in a block that reduces them by one more rule `n`. -/
theorem over_static {fs : FileSystem} {b : Block} {below : List Nat} (hb : b ∈ blocks)
    (hbelow : below ∈ b.below) {n : Nat} (hn : n ∈ silentRules)
    (hoptions : ∀ o ∈ staticOptions n, o ∈ b.options) {state : StaticCfg → Yy}
    (hset : ∀ c v f, setStatic v f (state c) = .ok v (state (f c))) (s : StaticSpec) :
    (source fs).Over tables (b.places below) (state StaticCfg.zero)
      (s.lines.flatMap Line.tokens) (state s.meaning) := by
  have hpost : ∀ m ∈ [n], m ∈ silentRules := by simpa using hn
  simp only [StaticSpec.lines, List.flatMap_append]
  refine .trans (over_string hb hbelow state _ s.domainname (n := 85) (hoptions _ (by simp [staticOptions]))
    (by decide) hpost (fun str c => { c with domainname := some str }) (fun str v vs => hset _ v _)
    ⟨none, none, s.domainname.map Text.str, none⟩ (by cases s.domainname <;> rfl)) ?_
  refine .trans (over_string hb hbelow state _ s.domainserver (n := 86) (hoptions _ (by simp [staticOptions]))
    (by decide) hpost (fun str c => { c with domainserver := some str }) (fun str v vs => hset _ v _)
    ⟨none, none, s.domainname.map Text.str, s.domainserver.map Text.str⟩
    (by cases s.domainserver <;> rfl)) ?_
  refine .trans (over_string hb hbelow state _ s.inet (n := 87) (hoptions _ (by simp [staticOptions]))
    (by decide) hpost (fun str c => { c with inet := some str }) (fun str v vs => hset _ v _)
    ⟨s.inet.map Text.str, none, s.domainname.map Text.str, s.domainserver.map Text.str⟩
    (by cases s.inet <;> rfl)) ?_
  exact over_string hb hbelow state _ s.netmask (n := 88) (hoptions _ (by simp [staticOptions]))
    (by decide) hpost (fun str c => { c with netmask := some str }) (fun str v vs => hset _ v _)
    s.meaning (by cases hmask : s.netmask <;> simp [StaticSpec.meaning, hmask])

section Ethernet

/-- The structure of an ethernet section after some of its options, with its static options
at `p`. -/
def etherRecord (p : Nat) (name : CStr) (interface : Option (Text 15)) (priority : Option CInt)
    (dhcp : Option Bool) (lladdr runUp runDown : Option Value) : Ethernet Nat where
  name := strncpy nameSize name
  interface := field interfaceSize interface
  priority := number priority
  isdhcp := if dhcp = some true then 1 else 0
  staticopts := if dhcp = some true then none else some p
  lladdr := lladdr.map Text.str
  runUp := runUp.map Text.str
  runDown := runDown.map Text.str

def EtherSpec.opened (e : EtherSpec) (p : Nat) : Ethernet Nat :=
  etherRecord p e.name.str none none none none none none

def EtherSpec.record (e : EtherSpec) (p : Nat) : Ethernet Nat :=
  etherRecord p e.name.str e.interface e.priority e.dhcp e.lladdr e.runUp e.runDown

variable {fs : FileSystem} {below : List Nat} (y : Yy)

theorem over_etherString (hbelow : below ∈ etherBlock.below) {max : Nat} (o : Option (Text max))
    {a : Token} {n : Nat} (ho : (a, .string, [n]) ∈ etherBlock.options) (hn : n ∉ [7, 15, 18])
    (f : CStr → Ethernet Nat → Ethernet Nat)
    (h : ∀ s v vs y, action fs n (.string s :: vs) v y = setEther v (f s) y) {c : StaticCfg}
    {r : Ethernet Nat} (r' : Ethernet Nat) (hr : r' = o.elim r fun t => f t.str r) :
    (source fs).Over tables (etherBlock.places below) (inEther y r c)
      ((stringLines 2 a o).flatMap Line.tokens) (inEther y r' c) :=
  over_string (by decide) hbelow (inEther y · c) r o ho hn (by simp) f
    (fun s v vs => (h s v vs _).trans (setEther_inEther y r c v _)) r' hr

theorem does_etherDhcp {r : Ethernet Nat} {c : StaticCfg} (yes : Bool) :
    Does tables (act fs) (some (.number yes.toInt)) [37] (inEther y r c)
      (inEther y { r with
        isdhcp := yes.toInt
        staticopts := if yes then none else some y.heap.statics.length } c) := by
  cases yes with
  | false => exact does_number (by decide) fun v vs => setEther_inEther y r c v _
  | true => exact does_number (by decide) fun v vs => setEther_inEther y r c v _

theorem over_etherBody (hbelow : below ∈ etherBlock.below) (e : EtherSpec) :
    (source fs).Over tables (etherBlock.places below)
      (inEther y (e.opened y.heap.statics.length) StaticCfg.zero) (e.body.flatMap Line.tokens)
      (inEther y (e.record y.heap.statics.length) e.static.meaning) := by
  have hb : etherBlock ∈ blocks := by decide
  let record := etherRecord y.heap.statics.length e.name.str
  simp only [EtherSpec.body, List.flatMap_append]
  refine .trans (over_etherString y hbelow e.interface (n := 36) (by decide) (by decide)
    (fun s r => { r with interface := strncpy interfaceSize s }) (fun s v vs y => rfl)
    (record e.interface none none none none none) (by cases e.interface <;> rfl)) ?_
  refine .trans (over_number hb hbelow (inEther y · _) _ e.priority (n := 35) (by decide) (by decide)
    (fun i r => { r with priority := toInt i }) (fun i v vs => setEther_inEther y _ _ v _)
    (record e.interface e.priority none none none none) ?_) ?_
  · cases e.priority with
    | none => rfl
    | some i => simp only [Option.elim_some, toInt_val]; rfl
  refine .trans (over_dhcp hb hbelow (n := 37) (by decide) (by decide) (does_etherDhcp y)
    (show inEther y (record e.interface e.priority e.dhcp none none none) StaticCfg.zero = _
      from ?_)) ?_
  · rcases e.dhcp with _ | _ | _ <;> rfl
  refine .trans (over_etherString y hbelow e.lladdr (n := 39) (by decide) (by decide)
    (fun s r => { r with lladdr := some s }) (fun s v vs y => rfl)
    (record e.interface e.priority e.dhcp e.lladdr none none) (by cases e.lladdr <;> rfl)) ?_
  refine .trans (over_static hb hbelow (n := 38) (by decide) (by decide)
    (fun c v f => setStatic_inEther y _ c v f) e.static) ?_
  refine .trans (over_etherString y hbelow e.runUp (n := 40) (by decide) (by decide)
    (fun s r => { r with runUp := some s }) (fun s v vs y => rfl)
    (record e.interface e.priority e.dhcp e.lladdr e.runUp none) (by cases e.runUp <;> rfl)) ?_
  exact over_etherString y hbelow e.runDown (n := 41) (by decide) (by decide)
    (fun s r => { r with runDown := some s }) (fun s v vs y => rfl) _
    (by simp only [EtherSpec.record]; cases e.runDown <;> rfl)

/-- The globals after an ethernet section. -/
def afterEther (y : Yy) (r : Ethernet Nat) (c : StaticCfg) : Yy :=
  { inEther y r c with ether := none, staticonfig := none }

/-- The current network with one more ethernet section. -/
def linkEther (y : Yy) (network : Nat) : Yy :=
  { y with
    heap := { y.heap with
      networks := y.heap.networks.modify network fun n =>
        { n with ethernetList := y.heap.ethers.length :: n.ethernetList } } }

theorem over_ether {network : Nat} (hnetwork : y.network = some network) (e : EtherSpec) :
    (source fs).Over tables (netEntries.map Entry.place) y (e.lines.flatMap Line.tokens)
      (afterEther (linkEther y network) (e.record y.heap.statics.length) e.static.meaning) := by
  have hopen : Does tables (act fs) (some (.string e.name.str)) [27] y
      (inEther (linkEther y network) (e.opened y.heap.statics.length) StaticCfg.zero) := by
    refine does_string (by decide) fun v vs => ?_
    have : action fs 27 (.string e.name.str :: vs) v y = actEthernet v e.name.str y := rfl
    rw [this, actEthernet, withPtr_some hnetwork]
    rfl
  have hclose {r : Ethernet Nat} {c : StaticCfg} : Does tables (act fs) none [28]
      (inEther (linkEther y network) r c) (afterEther (linkEther y network) r c) :=
    .blind fun vs => ⟨_, rfl⟩
  have h25 : ∀ n ∈ [25], Silent (act fs) n := by simpa using silent_of_mem (by decide)
  have hlines : e.lines.flatMap Line.tokens =
      [(.ethernetname, none), (.string, some (.string e.name.str)), (lbrace, none), (newline, none)] ++
        (e.body.flatMap Line.tokens ++ [(rbrace, none), (newline, none)]) := by
    simp [EtherSpec.lines, block, Line.tokens, Lexeme.token, Lexeme.val]
  rw [hlines]
  refine over_block (d := etherKind) (fit_section _ (by simp)) (by decide) rfl
    (.cons does_nil (.cons hopen (.cons does_nil (.cons does_nil .nil))))
    (fun below hbelow => over_etherBody (linkEther y network) hbelow e) ?_ ?_
  · exact .silent_cons (silent_of_mem (by decide)) (hclose.append h25)
  · exact .silent_cons (silent_of_mem (by decide)) (hclose.append h25)

end Ethernet

section Wireless

/-- The structure of a wireless section after some of its options, with its static options
at `p` and those for WPA at `q`. -/
def wlanRecord (q : Nat) (name : CStr) (p : Nat) (interface : Option (Text 15))
    (priority : Option CInt) (nwid bssid : Option Value) (chan minsignal : Option CInt)
    (dhcp : Option Bool) (lladdr wep runUp runDown : Option Value) : Wireless Nat Nat where
  name := strncpy nameSize name
  interface := field interfaceSize interface
  priority := number priority
  nwid := nwid.map Text.str
  bssid := bssid.map Text.str
  minsignal := number minsignal
  channel := number chan
  isdhcp := if dhcp = some true then 1 else 0
  staticopts := some p
  wpa := some q
  wepNwkex := wep.map Text.str
  lladdr := lladdr.map Text.str
  runUp := runUp.map Text.str
  runDown := runDown.map Text.str

def WlanSpec.opened (w : WlanSpec) (p q : Nat) : Wireless Nat Nat :=
  wlanRecord q w.name.str p none none none none none none none none none none none

def WlanSpec.record (w : WlanSpec) (p q : Nat) : Wireless Nat Nat :=
  wlanRecord q w.name.str p w.interface w.priority w.nwid w.bssid w.chan w.minsignal w.dhcp
    w.lladdr (w.wep.bind id) w.runUp w.runDown

/-- With `dhcp no` new static options are allocated, and the ones the section began with
are left behind. -/
def leftBehind (dhcp : Option Bool) : List StaticCfg :=
  if dhcp = some false then [StaticCfg.zero] else []

variable {fs : FileSystem} {below : List Nat} (y : Yy)

theorem over_wlanString (hbelow : below ∈ wlanBlock.below) {max : Nat} (o : Option (Text max))
    {a : Token} {n : Nat} (ho : (a, .string, [n]) ∈ wlanBlock.options) (hn : n ∉ [7, 15, 18])
    (f : CStr → Wireless Nat Nat → Wireless Nat Nat)
    (h : ∀ s v vs y, action fs n (.string s :: vs) v y = setWlan v (f s) y) {cs : List StaticCfg}
    {c : StaticCfg} {p : WpaCfg} {r : Wireless Nat Nat} (r' : Wireless Nat Nat)
    (hr : r' = o.elim r fun t => f t.str r) :
    (source fs).Over tables (wlanBlock.places below) (inWlan y r cs c p)
      ((stringLines 2 a o).flatMap Line.tokens) (inWlan y r' cs c p) :=
  over_string (by decide) hbelow (inWlan y · cs c p) r o ho hn (by simp) f
    (fun s v vs => (h s v vs _).trans (setWlan_inWlan y r cs c p v _)) r' hr

theorem over_wlanNumber (hbelow : below ∈ wlanBlock.below) (o : Option CInt)
    {a : Token} {n : Nat} (ho : (a, .number, [n]) ∈ wlanBlock.options) (hn : n ∉ [7, 15, 18])
    (f : Int → Wireless Nat Nat → Wireless Nat Nat)
    (h : ∀ i v vs y, action fs n (.number i :: vs) v y = setWlan v (f (toInt i)) y)
    {cs : List StaticCfg} {c : StaticCfg} {p : WpaCfg} {r : Wireless Nat Nat}
    (r' : Wireless Nat Nat) (hr : r' = o.elim r fun i => f i.val r) :
    (source fs).Over tables (wlanBlock.places below) (inWlan y r cs c p)
      ((numberLines 2 a o).flatMap Line.tokens) (inWlan y r' cs c p) := by
  refine over_number (by decide) hbelow (inWlan y · cs c p) r o ho hn (fun i => f (toInt i))
    (fun i v vs => (h i v vs _).trans (setWlan_inWlan y r cs c p v _)) r' ?_
  simpa only [toInt_val] using hr

theorem does_wlanDhcp {r : Wireless Nat Nat} {c : StaticCfg} {p : WpaCfg} (yes : Bool) :
    Does tables (act fs) (some (.number yes.toInt)) [56] (inWlan y r [] c p)
      (if yes then inWlan y { r with isdhcp := 1 } [] c p
        else inWlan y { r with isdhcp := 0, staticopts := some (y.heap.statics ++ [c]).length } [c]
          StaticCfg.zero p) := by
  cases yes with
  | false =>
      refine does_number (by decide) fun v vs => ?_
      have : action fs 56 (.number (Bool.toInt false) :: vs) v (inWlan y r [] c p) =
          actWirelessDhcp v 0 (inWlan y r [] c p) := rfl
      rw [this, actWirelessDhcp, if_pos rfl]
      have hnew : newStatic (inWlan y r [] c p) = inWlan y r [c] StaticCfg.zero p := by
        simp [newStatic, inWlan]
      simp only [hnew, setWlan_inWlan]
      rfl
  | true => exact does_number (by decide) fun v vs => setWlan_inWlan y r [] c p v _

theorem over_wpaBody {r : Wireless Nat Nat} {cs : List StaticCfg} {c : StaticCfg}
    (hbelow : below ∈ wpaBlock.below) (w : WpaSpec) :
    (source fs).Over tables (wpaBlock.places below) (inWlan y r cs c WpaCfg.zero)
      ((stringLines 3 .wpakey w.wpakey ++ (stringLines 3 .wpagroupcipher w.wpagroupcipher ++
        (stringLines 3 .wpaciphers w.wpaciphers ++ stringLines 3 .wpaakms w.wpaakms))).flatMap
          Line.tokens)
      (inWlan y r cs c w.meaning) := by
  have hone {a : Token} {n : Nat} {p : WpaCfg} (o : Option Value) (f : CStr → WpaCfg → WpaCfg)
      (ho : (a, .string, [n]) ∈ wpaBlock.options) (hn : n ∉ [7, 15, 18])
      (h : ∀ s v vs y, action fs n (.string s :: vs) v y = setWpa v (f s) y) (p' : WpaCfg)
      (hp : p' = o.elim p fun t => f t.str p) :
      (source fs).Over tables (wpaBlock.places below) (inWlan y r cs c p)
        ((stringLines 3 a o).flatMap Line.tokens) (inWlan y r cs c p') :=
    over_string (by decide) hbelow (inWlan y r cs c ·) p o ho hn (by simp) f
      (fun s v vs => (h s v vs _).trans (setWpa_inWlan y r cs c p v _)) p' hp
  simp only [List.flatMap_append]
  refine .trans (hone (n := 71) w.wpakey (fun s p => { p with wpakey := some s }) (by decide)
    (by decide) (fun s v vs y => rfl) ⟨w.wpakey.map Text.str, none, none, none⟩
    (by cases w.wpakey <;> rfl)) ?_
  refine .trans (hone (n := 72) w.wpagroupcipher (fun s p => { p with wpagroupcipher := some s })
    (by decide) (by decide) (fun s v vs y => rfl)
    ⟨w.wpakey.map Text.str, w.wpagroupcipher.map Text.str, none, none⟩
    (by cases w.wpagroupcipher <;> rfl)) ?_
  refine .trans (hone (n := 74) w.wpaciphers (fun s p => { p with wpaciphers := some s })
    (by decide) (by decide) (fun s v vs y => rfl)
    ⟨w.wpakey.map Text.str, w.wpagroupcipher.map Text.str, w.wpaciphers.map Text.str, none⟩
    (by cases w.wpaciphers <;> rfl)) ?_
  exact hone (n := 73) w.wpaakms (fun s p => { p with wpaakms := some s })
    (by decide) (by decide) (fun s v vs y => rfl) _
    (by simp only [WpaSpec.meaning]; cases w.wpaakms <;> rfl)

/-- A block inside a wireless section changes what its options change. -/
theorem over_inner {d : Kind} (hd : d ∈ [wpaKind, wepKind]) (hbelow : below ∈ wlanBlock.below)
    {a : Token} (hopening : d.opening = [a, lbrace, newline])
    (hrules : ∃ n ∈ silentRules, d.rules = [[n], [], []])
    (hends : ∀ n ∈ d.empty ++ d.full, n ∈ silentRules) {y y' : Yy} {body : List Line}
    (hbody : ∀ below ∈ d.block.below,
      (source fs).Over tables (d.block.places below) y (body.flatMap Line.tokens) y') :
    (source fs).Over tables (wlanBlock.places below) y
      ((block 2 (.keyword a) [] body).flatMap Line.tokens) y' := by
  obtain ⟨n, hn, hrules⟩ := hrules
  have hlines : (block 2 (.keyword a) [] body).flatMap Line.tokens =
      [(a, none), (lbrace, none), (newline, none)] ++
        (body.flatMap Line.tokens ++ [(rbrace, none), (newline, none)]) := by
    simp [block, Line.tokens, Lexeme.token, Lexeme.val]
  have hsilent (m : Nat) (hm : m ∈ d.empty ++ d.full) : Silent (act fs) m :=
    silent_of_mem (hends m hm)
  rw [hlines]
  refine over_block (E := wlanEntries below) (fit_inner d hd below hbelow) (by simp [wlanEntries])
    hopening.symm ?_ hbody ?_ ?_
  · rw [hrules]
    exact .cons (.silent (by simpa using silent_of_mem hn)) (.cons does_nil (.cons does_nil .nil))
  · exact .silent fun m hm => hsilent m (List.mem_append_left _ hm)
  · exact .silent fun m hm => hsilent m (List.mem_append_right _ hm)

theorem over_wpa (hbelow : below ∈ wlanBlock.below) {r : Wireless Nat Nat} {cs : List StaticCfg}
    {c : StaticCfg} (o : Option WpaSpec) :
    (source fs).Over tables (wlanBlock.places below) (inWlan y r cs c WpaCfg.zero)
      ((o.elim [] WpaSpec.lines).flatMap Line.tokens)
      (inWlan y r cs c (o.elim WpaCfg.zero WpaSpec.meaning)) := by
  cases o with
  | none => exact .refl
  | some w =>
      exact over_inner (by simp) hbelow (d := wpaKind) rfl ⟨63, by decide, rfl⟩ (by decide)
        fun below hbelow => over_wpaBody y hbelow w

theorem over_wep (hbelow : below ∈ wlanBlock.below) {r : Wireless Nat Nat}
    {cs : List StaticCfg} {c : StaticCfg} {p : WpaCfg} (o : Option (Option Value))
    (r' : Wireless Nat Nat) (hr : r' = (o.bind id).elim r fun t => { r with wepNwkex := some t.str }) :
    (source fs).Over tables (wlanBlock.places below) (inWlan y r cs c p)
      ((o.elim [] wepLines).flatMap Line.tokens) (inWlan y r' cs c p) := by
  cases o with
  | none =>
      rw [hr]
      exact .refl
  | some key =>
      refine over_inner (by simp) hbelow (d := wepKind) rfl ⟨75, by decide, rfl⟩ (by decide)
        fun below hbelow => ?_
      have ho : (Token.wepkey, Token.string, [83]) ∈ wepBlock.options := by decide
      exact over_string (by decide) hbelow (inWlan y · cs c p) r key ho (by decide) (by simp)
        (fun s r => { r with wepNwkex := some s }) (fun s v vs => setWlan_inWlan y r cs c p v _) r' hr

theorem over_wlanBody (hbelow : below ∈ wlanBlock.below) (w : WlanSpec) :
    (source fs).Over tables (wlanBlock.places below)
      (inWlan y (w.opened y.heap.statics.length y.heap.wpas.length) [] StaticCfg.zero WpaCfg.zero)
      (w.body.flatMap Line.tokens)
      (inWlan y (w.record (y.heap.statics ++ leftBehind w.dhcp).length y.heap.wpas.length)
        (leftBehind w.dhcp) w.static.meaning (w.wpa.elim WpaCfg.zero WpaSpec.meaning)) := by
  have hb : wlanBlock ∈ blocks := by decide
  let record := wlanRecord y.heap.wpas.length w.name.str
  let p := y.heap.statics.length
  let p' := (y.heap.statics ++ leftBehind w.dhcp).length
  simp only [WlanSpec.body, List.flatMap_append]
  refine .trans (over_wlanString y hbelow w.interface (n := 51) (by decide) (by decide)
    (fun s r => { r with interface := strncpy interfaceSize s }) (fun s v vs y => rfl)
    (record p w.interface none none none none none none none none none none)
    (by cases w.interface <;> rfl)) ?_
  refine .trans (over_wlanNumber y hbelow w.priority (n := 50) (by decide) (by decide)
    (fun i r => { r with priority := i }) (fun i v vs y => rfl)
    (record p w.interface w.priority none none none none none none none none none)
    (by cases w.priority <;> rfl)) ?_
  refine .trans (over_wlanString y hbelow w.nwid (n := 52) (by decide) (by decide)
    (fun s r => { r with nwid := some s }) (fun s v vs y => rfl)
    (record p w.interface w.priority w.nwid none none none none none none none none)
    (by cases w.nwid <;> rfl)) ?_
  refine .trans (over_wlanString y hbelow w.bssid (n := 54) (by decide) (by decide)
    (fun s r => { r with bssid := some s }) (fun s v vs y => rfl)
    (record p w.interface w.priority w.nwid w.bssid none none none none none none none)
    (by cases w.bssid <;> rfl)) ?_
  refine .trans (over_wlanNumber y hbelow w.chan (n := 53) (by decide) (by decide)
    (fun i r => { r with channel := i }) (fun i v vs y => rfl)
    (record p w.interface w.priority w.nwid w.bssid w.chan none none none none none none)
    (by cases w.chan <;> rfl)) ?_
  refine .trans (over_wlanNumber y hbelow w.minsignal (n := 55) (by decide) (by decide)
    (fun i r => { r with minsignal := i }) (fun i v vs y => rfl)
    (record p w.interface w.priority w.nwid w.bssid w.chan w.minsignal none none none none none)
    (by cases w.minsignal <;> rfl)) ?_
  refine .trans (over_dhcp hb hbelow (n := 56) (by decide) (by decide) (does_wlanDhcp y)
    (show inWlan y (record p' w.interface w.priority w.nwid w.bssid w.chan w.minsignal w.dhcp none
      none none none) (leftBehind w.dhcp) StaticCfg.zero WpaCfg.zero = _ from ?_)) ?_
  · simp only [p', leftBehind]
    rcases w.dhcp with _ | _ | _
    · simp [record, p]
    · rfl
    · simp [record, p, wlanRecord]
  refine .trans (over_wlanString y hbelow w.lladdr (n := 62) (by decide) (by decide)
    (fun s r => { r with lladdr := some s }) (fun s v vs y => rfl)
    (record p' w.interface w.priority w.nwid w.bssid w.chan w.minsignal w.dhcp w.lladdr none none
      none) (by cases w.lladdr <;> rfl)) ?_
  refine .trans (over_static hb hbelow (n := 57) (by decide) (by decide)
    (fun c v f => setStatic_inWlan y _ _ c _ v f) w.static) ?_
  refine .trans (over_wpa y hbelow w.wpa) ?_
  refine .trans (over_wep y hbelow w.wep (record p' w.interface w.priority w.nwid w.bssid w.chan
    w.minsignal w.dhcp w.lladdr (w.wep.bind id) none none) (by cases w.wep.bind id <;> rfl)) ?_
  refine .trans (over_wlanString y hbelow w.runUp (n := 60) (by decide) (by decide)
    (fun s r => { r with runUp := some s }) (fun s v vs y => rfl)
    (record p' w.interface w.priority w.nwid w.bssid w.chan w.minsignal w.dhcp w.lladdr
      (w.wep.bind id) w.runUp none) (by cases w.runUp <;> rfl)) ?_
  exact over_wlanString y hbelow w.runDown (n := 61) (by decide) (by decide)
    (fun s r => { r with runDown := some s }) (fun s v vs y => rfl) _
    (by simp only [WlanSpec.record]; cases w.runDown <;> rfl)

/-- The globals after a wireless section. -/
def afterWlan (y : Yy) (r : Wireless Nat Nat) (cs : List StaticCfg) (c : StaticCfg) (p : WpaCfg) :
    Yy :=
  { inWlan y r cs c p with wlan := none, ether := none }

/-- The current network with one more wireless section. -/
def linkWlan (y : Yy) (network : Nat) : Yy :=
  { y with
    heap := { y.heap with
      networks := y.heap.networks.modify network fun n =>
        { n with wirelessList := y.heap.wlans.length :: n.wirelessList } } }

theorem over_wlan {network : Nat} (hnetwork : y.network = some network) (w : WlanSpec) :
    (source fs).Over tables (netEntries.map Entry.place) y (w.lines.flatMap Line.tokens)
      (afterWlan (linkWlan y network)
        (w.record (y.heap.statics ++ leftBehind w.dhcp).length y.heap.wpas.length)
        (leftBehind w.dhcp) w.static.meaning (w.wpa.elim WpaCfg.zero WpaSpec.meaning)) := by
  have hopen : Does tables (act fs) (some (.string w.name.str)) [42] y
      (inWlan (linkWlan y network) (w.opened y.heap.statics.length y.heap.wpas.length) []
        StaticCfg.zero WpaCfg.zero) := by
    refine does_string (by decide) fun v vs => ?_
    have : action fs 42 (.string w.name.str :: vs) v y = actWireless v w.name.str y := rfl
    rw [this, actWireless, withPtr_some hnetwork]
    simp only [inWlan, List.append_nil]
    rfl
  have hclose {r : Wireless Nat Nat} {cs : List StaticCfg} {c : StaticCfg} {p : WpaCfg} :
      Does tables (act fs) none [43] (inWlan (linkWlan y network) r cs c p)
        (afterWlan (linkWlan y network) r cs c p) :=
    .blind fun vs => ⟨_, rfl⟩
  have h26 : ∀ n ∈ [26], Silent (act fs) n := by simpa using silent_of_mem (by decide)
  have hlines : w.lines.flatMap Line.tokens =
      [(.wirelessname, none), (.string, some (.string w.name.str)), (lbrace, none), (newline, none)] ++
        (w.body.flatMap Line.tokens ++ [(rbrace, none), (newline, none)]) := by
    simp [WlanSpec.lines, block, Line.tokens, Lexeme.token, Lexeme.val]
  rw [hlines]
  refine over_block (d := wlanKind) (fit_section _ (by simp)) (by decide) rfl
    (.cons does_nil (.cons hopen (.cons does_nil (.cons does_nil .nil))))
    (fun below hbelow => over_wlanBody (linkWlan y network) hbelow w) ?_ ?_
  · exact .silent_cons (silent_of_mem (by decide)) (hclose.append h26)
  · exact .silent_cons (silent_of_mem (by decide)) (hclose.append h26)

end Wireless

end Ifconfigd.Parse
