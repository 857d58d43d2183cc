import Ifconfigd.Config
import Ifconfigd.Control
import Ifconfigd.Parse.Grammar

/-!
# The semantic actions and `parse_config`

The actions of the grammar build the configuration in a heap, through five global
pointers to the section being read. A pointer is an index into the list of the
structures of its kind that were allocated; nothing is ever freed.

An action that writes through a null pointer, or uses a value of the wrong kind,
ends the process.
-/

namespace Ifconfigd.Parse

open CLib Yacc

/-! ## Files -/

/-- A file as `fopen` and `fstat` see it. -/
structure Inode where
  data : List Byte
  uid : Nat
  mode : Nat

/-- What the parser finds outside: its standard input, the files that can be opened
for reading, its user id, and how many files it may have open at a time. -/
structure FileSystem where
  stdin : List Byte
  inode : CStr → Option Inode
  uid : Nat
  openMax : Option Nat

/-- `fopen(name, "r")` with `opened` files open. -/
def fopen (fs : FileSystem) (opened : Nat) (name : CStr) : Option Inode :=
  if ∀ limit ∈ fs.openMax, opened < limit then fs.inode name else none

/-- `check_file_secrecy`, where `true` is the return value 0. -/
def checkFileSecrecy (fs : FileSystem) (i : Inode) : Bool :=
  !(i.uid ≠ 0 && i.uid ≠ fs.uid) && i.mode &&& 0o077 = 0

/-- `pushfile`, with the files that are in the list already; `none` is `NULL`. -/
def pushfile (fs : FileSystem) (files : List File) (name : CStr) (secret : Bool) : Option File :=
  if files = [] ∧ name = CStr.lit "-" then some ⟨CStr.lit "stdin", fs.stdin, 1, 0⟩
  else
    match fopen fs files.length name with
    | none => none
    | some i => if secret && !checkFileSecrecy fs i then none else some ⟨name, i.data, 1, 0⟩

/-- A file is opened without errors. -/
theorem pushfile_errors {fs : FileSystem} {files : List File} {name : CStr} {secret : Bool}
    {file : File} (h : pushfile fs files name secret = some file) : file.errors = 0 := by
  rw [pushfile.eq_def] at h
  grind

/-! ## The heap -/

/-- The structures the parser allocated. -/
structure Heap where
  conf : Conf Nat
  networks : List (Network Nat Nat)
  ethers : List (Ethernet Nat)
  wlans : List (Wireless Nat Nat)
  statics : List StaticCfg
  wpas : List WpaCfg
  deriving DecidableEq

def Heap.empty : Heap := ⟨Conf.zero, [], [], [], [], []⟩

namespace Heap

variable (h : Heap)

/-- The structure a pointer points to. -/
def static (p : Nat) : StaticCfg := h.statics.getD p StaticCfg.zero

def wpa (p : Nat) : WpaCfg := h.wpas.getD p WpaCfg.zero

def ethernet (p : Nat) : Ethernet StaticCfg :=
  let e := h.ethers.getD p Ethernet.zero
  ⟨e.name, e.interface, e.priority, e.isdhcp, e.staticopts.map h.static, e.lladdr, e.runUp,
    e.runDown⟩

def wireless (p : Nat) : Wireless StaticCfg WpaCfg :=
  let w := h.wlans.getD p Wireless.zero
  ⟨w.name, w.interface, w.priority, w.nwid, w.bssid, w.minsignal, w.channel, w.isdhcp,
    w.staticopts.map h.static, w.wpa.map h.wpa, w.wepNwkex, w.lladdr, w.runUp, w.runDown⟩

def network (p : Nat) : Network (Ethernet StaticCfg) (Wireless StaticCfg WpaCfg) :=
  let n := h.networks.getD p Network.zero
  ⟨n.name, n.ethernetList.map h.ethernet, n.wirelessList.map h.wireless⟩

/-- The configuration as its readers see it. -/
def read : IfconfigdConf := ⟨h.conf.networkList.map h.network, h.conf.upinterval⟩

end Heap

/-- The globals of the parser. `grammarErrors` counts the reductions by the rule
`grammar error '\n'`; it is not in the source. -/
structure Yy where
  lex : Lex
  heap : Heap
  network : Option Nat
  ether : Option Nat
  wlan : Option Nat
  wpa : Option Nat
  staticonfig : Option Nat
  grammarErrors : Nat
  deriving DecidableEq

/-! ## Actions -/

/-- An entry of the value stack, `yyvsp[-i]`, as a string or a number. -/
def withString (vs : List Val) (i : Nat) (k : CStr → Outcome Val Yy) : Outcome Val Yy :=
  match vs[i]? with
  | some (.string s) => k s
  | _ => .crash

def withNumber (vs : List Val) (i : Nat) (k : Int → Outcome Val Yy) : Outcome Val Yy :=
  match vs[i]? with
  | some (.number n) => k n
  | _ => .crash

def withPtr (p : Option Nat) (k : Nat → Outcome Val Yy) : Outcome Val Yy :=
  match p with
  | some i => k i
  | none => .crash

/-- `yyerror(...); YYERROR;` -/
def yyfail (m : Message) (y : Yy) : Outcome Val Yy := .error { y with lex := yyerror m y.lex }

/-- `symset`. -/
def symset (nam val : CStr) (persist : Bool) (symhead : List Sym) : List Sym :=
  match symhead.find? fun sym => sym.nam = nam with
  | some sym =>
      if sym.persist then symhead
      else (symhead.eraseP fun sym => sym.nam = nam) ++ [⟨nam, val, persist⟩]
  | none => symhead ++ [⟨nam, val, persist⟩]

/-- An assignment from an `int64_t` to an `int`. -/
def toInt (n : Int) : Int := n.bmod (2 ^ 32)

/-- `include : INCLUDE STRING`. -/
def actInclude (fs : FileSystem) (v : Val) (name : CStr) (y : Yy) : Outcome Val Yy :=
  match pushfile fs (y.lex.file :: y.lex.prev) name true with
  | none => yyfail (.includeFailed name) y
  | some nfile =>
      .ok v { y with
        lex := lungetc (ch '\n') { y.lex with file := nfile, prev := y.lex.file :: y.lex.prev } }

/-- `global : UPDATEINTERVAL NUMBER`. -/
def actGlobal (v : Val) (n : Int) (y : Yy) : Outcome Val Yy :=
  if n < minUpdateInterval then yyfail .intervalTooShort y
  else
    .ok v { y with
      heap := { y.heap with conf := { y.heap.conf with upinterval := toInt n } } }

/-- The action after `NETWORK STRING`. -/
def actNetwork (v : Val) (name : CStr) (y : Yy) : Outcome Val Yy :=
  if name.length > Control.maxNetworkNameSize then yyfail .networkNameTooLong y
  else
    let p := y.heap.networks.length
    .ok v { y with
      network := some p
      heap := { y.heap with
        conf := { y.heap.conf with networkList := p :: y.heap.conf.networkList }
        networks := y.heap.networks ++ [{ Network.zero with name := strncpy nameSize name }] } }

/-- The action after `ETHERNETNAME STRING`. -/
def actEthernet (v : Val) (name : CStr) (y : Yy) : Outcome Val Yy :=
  withPtr y.network fun network =>
    let p := y.heap.ethers.length
    let s := y.heap.statics.length
    .ok v { y with
      ether := some p
      staticonfig := some s
      heap := { y.heap with
        networks := y.heap.networks.modify network fun n =>
          { n with ethernetList := p :: n.ethernetList }
        ethers := y.heap.ethers ++
          [{ (Ethernet.zero : Ethernet Nat) with
            name := strncpy nameSize name, staticopts := some s }]
        statics := y.heap.statics ++ [StaticCfg.zero] } }

/-- The action after `WIRELESSNAME STRING`. -/
def actWireless (v : Val) (name : CStr) (y : Yy) : Outcome Val Yy :=
  withPtr y.network fun network =>
    let p := y.heap.wlans.length
    let s := y.heap.statics.length
    let w := y.heap.wpas.length
    .ok v { y with
      wlan := some p
      staticonfig := some s
      wpa := some w
      heap := { y.heap with
        networks := y.heap.networks.modify network fun n =>
          { n with wirelessList := p :: n.wirelessList }
        wlans := y.heap.wlans ++
          [{ (Wireless.zero : Wireless Nat Nat) with
            name := strncpy nameSize name, staticopts := some s, wpa := some w }]
        statics := y.heap.statics ++ [StaticCfg.zero]
        wpas := y.heap.wpas ++ [WpaCfg.zero] } }

/-- The actions that set members of the current section. -/
def setEther (v : Val) (f : Ethernet Nat → Ethernet Nat) (y : Yy) : Outcome Val Yy :=
  withPtr y.ether fun p =>
    .ok v { y with heap := { y.heap with ethers := y.heap.ethers.modify p f } }

def setWlan (v : Val) (f : Wireless Nat Nat → Wireless Nat Nat) (y : Yy) : Outcome Val Yy :=
  withPtr y.wlan fun p =>
    .ok v { y with heap := { y.heap with wlans := y.heap.wlans.modify p f } }

def setWpa (v : Val) (f : WpaCfg → WpaCfg) (y : Yy) : Outcome Val Yy :=
  withPtr y.wpa fun p =>
    .ok v { y with heap := { y.heap with wpas := y.heap.wpas.modify p f } }

def setStatic (v : Val) (f : StaticCfg → StaticCfg) (y : Yy) : Outcome Val Yy :=
  withPtr y.staticonfig fun p =>
    .ok v { y with heap := { y.heap with statics := y.heap.statics.modify p f } }

/-- `calloc` of a new `staticonfig`. -/
def newStatic (y : Yy) : Yy :=
  { y with
    staticonfig := some y.heap.statics.length
    heap := { y.heap with statics := y.heap.statics ++ [StaticCfg.zero] } }

/-- `DHCP yesno` in an ethernet section. -/
def actEthernetDhcp (v : Val) (yes : Int) (y : Yy) : Outcome Val Yy :=
  if yes = 0 then
    let y := if y.staticonfig = none then newStatic y else y
    setEther v (fun e => { e with isdhcp := 0, staticopts := y.staticonfig }) y
  else setEther v (fun e => { e with isdhcp := 1, staticopts := none }) y

/-- `DHCP yesno` in a wireless section. -/
def actWirelessDhcp (v : Val) (yes : Int) (y : Yy) : Outcome Val Yy :=
  if yes = 0 then
    let y := newStatic y
    setWlan v (fun w => { w with isdhcp := 0, staticopts := y.staticonfig }) y
  else setWlan v (fun w => { w with isdhcp := 1 }) y

/-- The value `$$` has without an assignment: that of `$1`, or zero when the right side
is empty. -/
def defaultVal (n : Nat) (vs : List Val) : Val :=
  if tables.len n = 0 then .none else vs.getD (tables.len n - 1) .none

/-- The `switch` over the rules, with `v` for `$$`. -/
def action (fs : FileSystem) (n : Nat) (vs : List Val) (v : Val) (y : Yy) : Outcome Val Yy :=
  match n with
  | 7 => -- grammar : grammar error '\n'
      .ok v { y with
        lex := { y.lex with file := { y.lex.file with errors := y.lex.file.errors + 1 } }
        grammarErrors := y.grammarErrors + 1 }
  -- yesno
  | 13 => .ok (.number 1) y
  | 14 => .ok (.number 0) y
  | 15 => withString vs 0 fun name => actInclude fs v name y
  | 16 => -- string : string STRING
      withString vs 1 fun a => withString vs 0 fun b =>
        .ok (.string (CStr.read (a.bytes ++ [32] ++ b.bytes))) y
  | 18 => -- varset : STRING string
      withString vs 1 fun nam => withString vs 0 fun val =>
        .ok v { y with lex := { y.lex with symhead := symset nam val false y.lex.symhead } }
  | 19 => withNumber vs 0 fun n => actGlobal v n y
  -- network
  | 20 => withString vs 0 fun name => actNetwork v name y
  | 21 => .ok v { y with network := none }
  -- ethernet
  | 27 => withString vs 0 fun name => actEthernet v name y
  | 28 => .ok v { y with ether := none, staticonfig := none }
  | 35 => withNumber vs 0 fun n => setEther v (fun e => { e with priority := toInt n }) y
  | 36 => withString vs 0 fun s =>
      setEther v (fun e => { e with interface := strncpy interfaceSize s }) y
  | 37 => withNumber vs 0 fun yes => actEthernetDhcp v yes y
  | 39 => withString vs 0 fun s => setEther v (fun e => { e with lladdr := some s }) y
  | 40 => withString vs 0 fun s => setEther v (fun e => { e with runUp := some s }) y
  | 41 => withString vs 0 fun s => setEther v (fun e => { e with runDown := some s }) y
  -- wireless
  | 42 => withString vs 0 fun name => actWireless v name y
  | 43 => .ok v { y with wlan := none, ether := none }
  | 50 => withNumber vs 0 fun n => setWlan v (fun w => { w with priority := toInt n }) y
  | 51 => withString vs 0 fun s =>
      setWlan v (fun w => { w with interface := strncpy interfaceSize s }) y
  | 52 => withString vs 0 fun s => setWlan v (fun w => { w with nwid := some s }) y
  | 53 => withNumber vs 0 fun n => setWlan v (fun w => { w with channel := toInt n }) y
  | 54 => withString vs 0 fun s => setWlan v (fun w => { w with bssid := some s }) y
  | 55 => withNumber vs 0 fun n => setWlan v (fun w => { w with minsignal := toInt n }) y
  | 56 => withNumber vs 0 fun yes => actWirelessDhcp v yes y
  | 60 => withString vs 0 fun s => setWlan v (fun w => { w with runUp := some s }) y
  | 61 => withString vs 0 fun s => setWlan v (fun w => { w with runDown := some s }) y
  | 62 => withString vs 0 fun s => setWlan v (fun w => { w with lladdr := some s }) y
  -- wpa and wep
  | 71 => withString vs 0 fun s => setWpa v (fun w => { w with wpakey := some s }) y
  | 72 => withString vs 0 fun s => setWpa v (fun w => { w with wpagroupcipher := some s }) y
  | 73 => withString vs 0 fun s => setWpa v (fun w => { w with wpaakms := some s }) y
  | 74 => withString vs 0 fun s => setWpa v (fun w => { w with wpaciphers := some s }) y
  | 83 => withString vs 0 fun s => setWlan v (fun w => { w with wepNwkex := some s }) y
  -- staticopts
  | 85 => withString vs 0 fun s => setStatic v (fun c => { c with domainname := some s }) y
  | 86 => withString vs 0 fun s => setStatic v (fun c => { c with domainserver := some s }) y
  | 87 => withString vs 0 fun s => setStatic v (fun c => { c with inet := some s }) y
  | 88 => withString vs 0 fun s => setStatic v (fun c => { c with netmask := some s }) y
  | _ => .ok v y

/-- `if ((yychar = yylex()) < 0) yychar = 0;` -/
def Token.clamp : Token → Token
  | .char c => .char (if c < 0 then 0 else c)
  | a => a

/-- What the parser of the configuration file is made of. -/
def client (fs : FileSystem) : Client Token Val Yy where
  lex y := ((yylex y.lex).1.clamp, { y with lex := (yylex y.lex).2 })
  lval y := y.lex.val
  action n vs := action fs n vs (defaultVal n vs)
  syntaxError y := { y with lex := yyerror .syntaxError y.lex }
  overflow y := { y with lex := yyerror .stackOverflow y.lex }

/-! ## `parse_config` -/

/-- What a call of `parse_config` finds and leaves: the list `files`, innermost first,
and the other globals. The members `file` and `prev` of the lexer are set by the call. -/
structure Globals where
  files : List File
  yy : Yy

/-- The globals of a process that has not parsed anything yet, with the macros it was
given. -/
def Globals.initial (symhead : List Sym) : Globals :=
  ⟨[], ⟨⟨⟨CStr.lit "", [], 0, 0⟩, [], none, [], symhead, 0, .none, []⟩, Heap.empty, none, none,
    none, none, none, 0⟩⟩

/-- The state `yyparse` starts in, with `file` the file to be parsed. -/
def Globals.start (g : Globals) (file : File) : Yy :=
  { g.yy with
    lex := { g.yy.lex with file, prev := g.files }
    heap := { g.yy.heap with conf := Conf.zero } }

/-- How a call of `parse_config` ends. -/
inductive Result
  | returned (conf : Option IfconfigdConf) (g : Globals)
  | crashed

/-- `parse_config` after `yyparse`. -/
def finish (y : Yy) : Result :=
  let left := (popfile y.lex).getD y.lex
  .returned (if y.lex.file.errors ≠ 0 then none else some y.heap.read)
    ⟨left.file :: left.prev, { y with lex := left }⟩

/-- `parse_config`, with `fuel` steps of `yyparse`. -/
def parseConfig (fs : FileSystem) (fuel : Nat) (filename : CStr) (g : Globals) : Option Result :=
  match pushfile fs g.files filename false with
  | none => some (.returned none g)
  | some file =>
      match run tables (client fs) fuel (.initial (g.start file)) with
      | none => none
      | some (.crash, _) => some .crashed
      | some (_, y) => some (finish y)

/-- An accepted file was opened, and `yyparse` stopped with no error counted in the
file it was reading then. -/
theorem parseConfig_accepted {fs : FileSystem} {fuel : Nat} {filename : CStr} {g g' : Globals}
    {conf : IfconfigdConf}
    (h : parseConfig fs fuel filename g = some (.returned (some conf) g')) :
    ∃ file status y, pushfile fs g.files filename false = some file ∧
      run tables (client fs) fuel (.initial (g.start file)) = some (status, y) ∧
      status ≠ .crash ∧ y.lex.file.errors = 0 ∧ y.heap.read = conf ∧
      g'.yy = { y with lex := (popfile y.lex).getD y.lex } := by
  rw [parseConfig.eq_def] at h
  split at h
  · cases h
  · next file hfile =>
      split at h
      · cases h
      · cases h
      · next status y hne hrun =>
          simp only [finish, Option.some.injEq, Result.returned.injEq] at h
          obtain ⟨hconf, rfl⟩ := h
          split at hconf
          · cases hconf
          · next herr =>
              refine ⟨file, status, y, hfile, hrun, fun hc => hne (by rw [hc]), ?_, ?_, rfl⟩
              · exact not_not.1 herr
              · exact Option.some.inj hconf

/-- Whether a call accepted its file, with a configuration and globals that pass a
test. -/
def acceptedWith (test : IfconfigdConf → Globals → Bool) : Option Result → Bool
  | some (.returned (some conf) g) => test conf g
  | _ => false

theorem exists_of_acceptedWith {test : IfconfigdConf → Globals → Bool} {r : Option Result}
    (h : acceptedWith test r = true) :
    ∃ conf g, r = some (.returned (some conf) g) ∧ test conf g = true := by
  rw [acceptedWith.eq_def] at h
  split at h
  · next conf g => exact ⟨conf, g, rfl, h⟩
  · cases h

end Ifconfigd.Parse
