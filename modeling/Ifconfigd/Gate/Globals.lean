import Ifconfigd.Gate.Ioctls

/-!
# `ifconfig_gate` on the globals of `ifcutil.h`

`ifcutil.c` was written for a program that runs once. Its handlers note an address, a
media word or a vlan tag in globals, and the ioctls that use them are made by another
handler or after the command loop. `ifconfig_gate` sets `name` and `ifr.ifr_name` on
entry and leaves the other globals as the call before left them.

A call is modelled as a program that asks the kernel: each question is an ioctl with
the interface it names and the data it carries. The daemon is built without `INET6`.
-/

namespace Ifconfigd.Gate

open CLib Dialogue

/-! ## Ioctls and answers -/

/-- The error numbers that the code looks at. -/
inductive Errno
  | e2big | eaddrnotavail | enetdown | other
  deriving DecidableEq

/-- What an ioctl leaves: its error, and the structure, of which `word` is the number
that the handlers here read back. -/
structure Answer where
  errno : Option Errno
  word : BitVec 32
  bytes : List Byte
  deriving DecidableEq

def Answer.failed (a : Answer) : Bool := a.errno.isSome

/-- `struct sockaddr`, as far as it is written. -/
structure Sockaddr where
  len : Nat
  family : Nat
  addr : List Byte
  deriving DecidableEq

/-- The data of an ioctl that the kernel reads, besides the name. -/
inductive Payload
  | none
  | data (bytes : List Byte)
  | flags (word : BitVec 16)
  | media (word : BitVec 32)
  | vlan (parent : CStr) (tag : Nat)
  | rid (addr : Sockaddr)
  | alias (addr mask dstaddr : Sockaddr)
  deriving DecidableEq

structure Ioctl where
  request : Request
  name : CStr
  payload : Payload
  deriving DecidableEq

/-- A program of ioctls. -/
abbrev Code := Proc Ioctl Answer

def ioctl (request : Request) (name : CStr) (payload : Payload) : Code Answer :=
  Proc.query ⟨request, name, payload⟩

/-! ## The globals -/

/-- `afs` without `INET6`. -/
inductive Family
  | inet | atalk
  deriving DecidableEq

/-- `RIDADDR`, `ADDR`, `MASK`, `DSTADDR`. -/
inductive Which
  | ridaddr | addr | mask | dstaddr
  deriving DecidableEq

/-- The globals that a call finds as the call before left them. The handlers also write
`setipdst`, `explicit_prefix`, `at_nr` and `flags`, which nothing in the daemon reads. -/
structure Memory where
  doalias : Int
  setaddr : Nat
  newaddr : Bool
  clearaddr : Bool
  /-- The addresses of `ridreq` and `in_addreq`. -/
  sintab : Which → Sockaddr
  /-- The address of `addreq`, for `atalk`. -/
  addreq : Sockaddr
  /-- The bits of `actions` but for `A_SILENT`. -/
  actions : List MediaAction
  mediaCurrent : BitVec 32
  mediaoptSet : BitVec 32
  mediaoptClear : BitVec 32
  shownet80211nodes : Bool
  /-- `__tag`, if `__have_tag`. -/
  tag : Option Nat

/-- The globals when the process starts. -/
def Memory.initial : Memory where
  doalias := 0
  setaddr := 0
  newaddr := false
  clearaddr := false
  sintab := fun _ => ⟨0, 0, [0, 0, 0, 0]⟩
  addreq := ⟨0, 0, [0, 0, 0, 0]⟩
  actions := []
  mediaCurrent := 0
  mediaoptSet := 0
  mediaoptClear := 0
  shownet80211nodes := false
  tag := none

/-- The globals during a call. `name` is not written after the entry. -/
structure Globals extends Memory where
  ifrName : CStr

/-- What a handler that is only known by its script does next. -/
inductive Choice
  /-- It returns. -/
  | stop
  /-- `err`, `errx` or `usage`. -/
  | exit
  /-- It passes by an optional ioctl. -/
  | skip
  | go (data : List Byte)

/-- What the handlers use: the C library with its databases, the tables of media words,
and the checks of the handlers in `script`. -/
structure World where
  strtonum : CStr → Nat → Nat → Option Nat
  inetNetPton : CStr → Option (List Byte × Fin 33)
  /-- `inet_aton`, `gethostbyname`, `getnetbyname`. -/
  inetAddr : CStr → Option (List Byte)
  /-- `sscanf(addr, "%u.%u", &net, &node)` with the checks after it. -/
  atAddr : CStr → Option (List Byte)
  getMediaSubtype : BitVec 32 → CStr → Option (BitVec 32)
  getMediaMode : BitVec 32 → CStr → Option (BitVec 32)
  getMediaOptions : BitVec 32 → CStr → Option (BitVec 32)
  /-- The byte in front of `name`, which `getinfo` looks at for an empty name. -/
  before : Byte
  rounds : Nat
  /-- The next step of a handler after some answers, with so many ioctls to go. -/
  choose : Call → List Answer → Nat → Choice

/-- A world without databases, in which every check of a number or a word fails and the
handlers of `script` return at once. -/
def World.silent : World where
  strtonum := fun _ _ _ => none
  inetNetPton := fun _ => none
  inetAddr := fun _ => none
  atAddr := fun _ => none
  getMediaSubtype := fun _ _ => none
  getMediaMode := fun _ _ => none
  getMediaOptions := fun _ _ => none
  before := 0
  rounds := 0
  choose := fun _ _ _ => .stop

section Handlers

variable (world : World)

/-! ## Handlers known by their script -/

/-- Run a script, after the answers `given`. -/
def follow (choose : List Answer → Nat → Choice) (name : CStr) :
    List Piece → List Answer → Globals → Code Globals
  | [], _, g => pure g
  | p :: rest, given, g =>
      match choose given rest.length with
      | .stop => pure g
      | .exit => .exit
      | .skip => if p.optional then follow choose name rest given g else pure g
      | .go data =>
          match p.via with
          | .ifr => do
              let a ← ioctl p.request g.ifrName (.data data)
              follow choose name rest (given ++ [a]) g
          | .stored => do
              let a ← ioctl p.request name (.data data)
              follow choose name rest (given ++ [a]) { g with ifrName := name }
          | .own => do
              let a ← ioctl p.request name (.data data)
              follow choose name rest (given ++ [a]) g

/-! ## Flags -/

/-- Set the bits of a positive `value`, clear those of a negative one. -/
def withBits (value : Int) (word : BitVec 16) : BitVec 16 :=
  if value < 0 then word &&& ~~~BitVec.ofInt 16 (-value) else word ||| BitVec.ofInt 16 value

def setifflags (name : CStr) (value : Int) (g : Globals) : Code Globals := do
  let a ← ioctl .siocgifflags g.ifrName .none
  if a.failed then .exit
  else do
    let a ← ioctl .siocsifflags name (.flags (withBits value (a.word.setWidth 16)))
    if a.failed then .exit else pure g

def setifxflags (name : CStr) (value : Int) (g : Globals) : Code Globals := do
  let a ← ioctl .siocgifxflags g.ifrName .none
  let _ ← ioctl .siocsifxflags name (.flags (withBits value (a.word.setWidth 16)))
  pure g

/-! ## Addresses -/

/-- The mask of `in_getprefix`; a length of 0 gives the same mask as 32. -/
def prefixMask (len : Nat) : List Byte :=
  if len = 0 ∨ len = 32 then [255, 255, 255, 255]
  else (List.range 4).map fun i =>
    if 8 * i + 8 ≤ len then 255
    else if 8 * i < len then 255 <<< UInt8.ofNat (8 - (len - 8 * i))
    else 0

/-- A slot of `sintab`, with its length and, but for the mask, its family set. -/
def Memory.sin (m : Memory) (which : Which) (addr : List Byte) : Memory :=
  let family := if which = .mask then (m.sintab which).family else 2
  { m with sintab := Function.update m.sintab which ⟨16, family, addr⟩ }

def inGetprefix (len : Nat) (which : Which) (m : Memory) : Memory := m.sin which (prefixMask len)

/-- `none` is `errx(1, "%s: bad value", s)`. -/
def inGetaddr (s : CStr) (which : Which) (m : Memory) : Option Memory :=
  match if which = .addr ∧ 47 ∈ s.bytes then world.inetNetPton s else none with
  | some (addr, bits) =>
      let m := inGetprefix bits .mask m
      some (m.sin which addr)
  | none => (world.inetAddr s).map (m.sin which)

/-- `at_getaddr` writes the same address for every `which`. -/
def atGetaddr (addr : CStr) (which : Which) (m : Memory) : Option Memory :=
  if which = .mask then none
  else (world.atAddr addr).map fun bytes => { m with addreq := ⟨16, 16, bytes⟩ }

/-- `afp->af_getaddr`. -/
def getaddr (af : Family) (addr : CStr) (which : Which) (m : Memory) : Option Memory :=
  match af with
  | .inet => inGetaddr world addr which m
  | .atalk => atGetaddr world addr which m

def setifaddr (af : Family) (addr : CStr) (m : Memory) : Option Memory :=
  let m := { m with
    setaddr := m.setaddr + 1
    newaddr := m.newaddr || decide (0 ≤ m.doalias)
    clearaddr := m.clearaddr || decide (m.doalias = 0) }
  getaddr world af addr (if 0 ≤ m.doalias then .addr else .ridaddr) m

def setifipdst (addr : CStr) (m : Memory) : Option Memory :=
  (inGetaddr world addr .dstaddr m).map fun m => { m with clearaddr := false, newaddr := false }

/-- `setifprefixlen`; `atalk` has no `af_getprefix`. -/
def setifprefixlen (af : Family) (len : CStr) (m : Memory) : Option Memory :=
  match af with
  | .inet => (world.strtonum len 0 32).map fun len => inGetprefix len .mask m
  | .atalk => some m

/-- `memcpy(rqtosa(af_ridreq), rqtosa(af_addreq), rqtosa(af_addreq)->sa_len)`; for
`atalk` the two are one. -/
def ridFromAddr (af : Family) (m : Memory) : Memory :=
  match af with
  | .inet =>
      if (m.sintab .addr).len = 0 then m
      else { m with sintab := Function.update m.sintab .ridaddr (m.sintab .addr) }
  | .atalk => m

def notealias (af : Family) (param : Int) (m : Memory) : Memory :=
  let m := if m.setaddr ≠ 0 ∧ m.doalias = 0 ∧ param < 0 then ridFromAddr af m else m
  if param < 0 then { m with doalias := param, clearaddr := true, newaddr := false }
  else { m with doalias := param, clearaddr := false }

/-! ## Media -/

def ifmType (word : BitVec 32) : BitVec 32 := word &&& 0xe0#32

def ifmSubtype (word : BitVec 32) : BitVec 32 := word &&& 0x1f#32

def ifmOptions (word : BitVec 32) : BitVec 32 := word &&& 0x0ff0ff00#32

def ifmInst (word : BitVec 32) : BitVec 32 := (word &&& 0xf0000000#32) >>> 28

def ifmMakeword (type subtype options instance_ : BitVec 32) : BitVec 32 :=
  type ||| subtype ||| options ||| instance_ <<< 28

/-- `actions & A_MEDIAOPT`. -/
def Memory.mediaopt (m : Memory) : Bool :=
  decide (.mediaoptset ∈ m.actions ∨ .mediaoptclr ∈ m.actions)

/-- Read the media of the interface, unless a media command was given before. -/
def grabMedia (name : CStr) (g : Globals) : Code Globals :=
  if .media ∈ g.actions ∨ g.mediaopt ∨ .mediamode ∈ g.actions then pure g
  else do
    let a ← ioctl .siocgifmedia name .none
    if a.failed ∧ a.errno ≠ some .e2big then .exit
    else pure { g with mediaCurrent := a.word }

def initCurrentMedia (name : CStr) (g : Globals) : Code Globals := do
  let g ← grabMedia name g
  if ifmType g.mediaCurrent = 0 then .exit else pure g

def setmedia (name val : CStr) (g : Globals) : Code Globals := do
  let g ← initCurrentMedia name g
  if .media ∈ g.actions ∨ .mediamode ∈ g.actions ∨ g.mediaopt then .exit
  else do
    let type := ifmType g.mediaCurrent
    let subtype ← Proc.ofOption (world.getMediaSubtype type val)
    pure { g with mediaCurrent := ifmMakeword type subtype 0 (ifmInst g.mediaCurrent) }

def setmediamode (name val : CStr) (g : Globals) : Code Globals := do
  let g ← initCurrentMedia name g
  if .mediamode ∈ g.actions then .exit
  else do
    let word := g.mediaCurrent
    let mode ← Proc.ofOption (world.getMediaMode (ifmType word) val)
    let word := ifmMakeword (ifmType word) (ifmSubtype word) (ifmOptions word) (ifmInst word)
    pure { g with mediaCurrent := word ||| mode }

def setmediaopt (name val : CStr) (g : Globals) : Code Globals := do
  let g ← initCurrentMedia name g
  if .mediaoptset ∈ g.actions ∨ .mediainst ∈ g.actions then .exit
  else do
    let options ← Proc.ofOption (world.getMediaOptions (ifmType g.mediaCurrent) val)
    pure { g with mediaoptSet := options }

def unsetmediaopt (name val : CStr) (g : Globals) : Code Globals := do
  let g ← initCurrentMedia name g
  if .mediaoptclr ∈ g.actions ∨ .media ∈ g.actions then .exit
  else do
    let options ← Proc.ofOption (world.getMediaOptions (ifmType g.mediaCurrent) val)
    pure { g with mediaoptClear := options }

def setmediainst (name val : CStr) (g : Globals) : Code Globals := do
  let g ← initCurrentMedia name g
  if .mediainst ∈ g.actions ∨ .media ∉ g.actions then .exit
  else do
    let word := g.mediaCurrent
    let inst ← Proc.ofOption (world.strtonum val 0 15)
    let inst := BitVec.ofNat 32 inst
    let word := ifmMakeword (ifmType word) (ifmSubtype word) (ifmOptions word) inst
    pure { g with mediaCurrent := word }

def processMediaCommands (name : CStr) (g : Globals) : Code Globals :=
  if .media ∈ g.actions ∨ g.mediaopt then do
    let word := (g.mediaCurrent ||| g.mediaoptSet) &&& ~~~g.mediaoptClear
    let _ ← ioctl .siocsifmedia name (.media word)
    pure { g with mediaCurrent := word, ifrName := name }
  else pure g

/-! ## Vlans and scans -/

def setvlantag (val : CStr) (g : Globals) : Code Globals := do
  let tag ← Proc.ofOption (world.strtonum val 0 4095)
  let a ← ioctl .siocgetvlan g.ifrName .none
  if a.failed then .exit
  else do
    let a ← ioctl .siocsetvlan g.ifrName (.vlan (.read a.bytes) tag)
    if a.failed then .exit else pure { g with tag := some tag }

/-- The digits at the end of a name, from the first one on. -/
def digits (name : CStr) : CStr where
  bytes := name.bytes.dropWhile fun b => ¬(48 ≤ b ∧ b ≤ 57)
  noNul := fun h => name.noNul ((List.dropWhile_sublist _).mem h)

def setvlandev (val : CStr) (g : Globals) : Code Globals := do
  let a ← ioctl .siocgetvlan g.ifrName .none
  if a.failed then .exit
  else do
    let tag ← Proc.ofOption (match g.tag with
      | some tag => some tag
      | none => if a.word = 0 then world.strtonum (digits g.ifrName) 0 4095 else a.word.toNat)
    let a ← ioctl .siocsetvlan g.ifrName (.vlan (val.strlcpy ifnamsiz) tag)
    if a.failed then .exit else pure g

def setifscan (g : Globals) : Code Globals :=
  if g.shownet80211nodes then .exit else pure { g with shownet80211nodes := true }

/-! ## A call -/

/-- `p->c_action`. -/
def actionOf : Handler → List MediaAction
  | .setmedia => [.media]
  | .setmediaopt => [.mediaoptset]
  | .unsetmediaopt => [.mediaoptclr]
  | .setmediamode => [.mediamode]
  | .setmediainst => [.mediainst]
  | _ => []

theorem actionOf_eq : ∀ p ∈ gateCmds false, p.action.toList = actionOf p.func := by
  decide +kernel

/-- A handler that only works on the globals; `none` is `errx`. -/
def onMemory (f : Memory → Option Memory) (g : Globals) : Code Globals := do
  let m ← Proc.ofOption (f g.toMemory)
  pure { g with toMemory := m }

/-- `(*p->c_func)(arg, param)`. -/
def func (af : Family) (name : CStr) (h : Handler) (arg : CStr) (param : Int) (g : Globals) :
    Code Globals :=
  match h with
  | .setifflags => setifflags name param g
  | .setifxflags => setifxflags name param g
  | .setifaddr => onMemory (setifaddr world af arg) g
  | .notealias => onMemory (fun m => some (notealias af param m)) g
  | .setifnetmask => onMemory (getaddr world af arg .mask) g
  | .setifbroadaddr => onMemory (getaddr world af arg .dstaddr) g
  | .setifdstaddr =>
      onMemory (fun m => getaddr world af arg .dstaddr { m with setaddr := m.setaddr + 1 }) g
  | .setifprefixlen => onMemory (setifprefixlen world af arg) g
  | .setifipdst => onMemory (setifipdst world arg) g
  | .setmedia => setmedia world name arg g
  | .setmediaopt => setmediaopt world name arg g
  | .unsetmediaopt => unsetmediaopt world name arg g
  | .setmediamode => setmediamode world name arg g
  | .setmediainst => setmediainst world name arg g
  | .setvlantag => setvlantag world arg g
  | .setvlandev => setvlandev world arg g
  | .setifscan => setifscan g
  | h => follow (world.choose (.func h (some arg) param)) name (script world.rounds h) [] g

/-- One round of the loop of `ifconfig_gate`, which never passes a null pointer. -/
def round (af : Family) (name : CStr) (g : Globals) : Call → Code Globals
  | .func h (some arg) param => do
      let g ← func world af name h arg param g
      pure { g with actions := g.actions ++ actionOf h }
  | .func _ none _ => .exit
  | .func2 h arg₁ arg₂ =>
      follow (world.choose (.func2 h arg₁ arg₂)) name (script world.rounds h) [] g

def isBridge (name : CStr) : Code Bool := do
  let a ← ioctl .siocgifflags name .none
  if a.failed then pure false
  else do
    let a ← ioctl .siocbrdgrts name .none
    pure (decide (a.errno = none ∨ a.errno = some .enetdown))

/-- `getinfo(&ifr, 0)`. What it reads is printed by `ifconfig` and not used here. -/
def getinfo (name ifrName : CStr) : Code Unit :=
  let last := name.bytes.getLast?.getD world.before
  if 48 ≤ last ∧ last ≤ 57 then do
    let a ← ioctl .siocgifflags ifrName .none
    if a.failed then pure ()
    else do
      let _ ← ioctl .siocgifxflags ifrName .none
      let _ ← ioctl .siocgifmetric ifrName .none
      let bridge ← isBridge name
      if bridge then do
        let _ ← ioctl .siocgifrdomain ifrName .none
        pure ()
      else do
        let _ ← ioctl .siocgifmtu ifrName .none
        let _ ← ioctl .siocgifrdomain ifrName .none
        pure ()
  else pure ()

/-- `rafp`: a null pointer if there are no arguments. -/
def rafp : List (Option CStr) → Option Family
  | [] => none
  | word :: _ => some (if word = some (.lit "atalk") then .atalk else .inet)

/-- `ioctl(s, rafp->af_difaddr, rafp->af_ridreq)` -/
def deleteAddr (name : CStr) (rafp : Option Family) (g : Globals) : Code Globals :=
  if g.clearaddr then do
    let af ← Proc.ofOption rafp
    let a ← ioctl .siocdifaddr name (.rid (match af with
      | .inet => g.sintab .ridaddr
      | .atalk => g.addreq))
    if a.failed ∧ ¬(a.errno = some .eaddrnotavail ∧ 0 ≤ g.doalias) then .exit else pure g
  else pure g

/-- `ioctl(s, rafp->af_aifaddr, rafp->af_addreq)` -/
def addAddr (name : CStr) (rafp : Option Family) (g : Globals) : Code Globals :=
  if g.newaddr then do
    let af ← Proc.ofOption rafp
    let a ← ioctl .siocaifaddr name (match af with
      | .inet => .alias (g.sintab .addr) (g.sintab .mask) (g.sintab .dstaddr)
      | .atalk => .alias g.addreq ⟨0, 0, []⟩ ⟨0, 0, []⟩)
    if a.failed then .exit else pure g
  else pure g

/-- `ifconfig_gate` with pointers of `size` bytes. The handler calls are those of
`ifconfigGate`; here each of them may end the process. -/
def gateIoctls (size : Nat) (argv : List (Option CStr)) (iface : CStr) (m : Memory) :
    Code Memory :=
  if ifnamsiz ≤ iface.length then .exit
  -- `strcmp` of the first argument with the names of `afs`
  else if argv.head? = some none then .exit
  else do
    let name := iface.strlcpy size
    let ifrName := iface.strlcpy ifnamsiz
    getinfo world name ifrName
    let calls := ifconfigGate false .never argv iface []
    let g ← calls.1.foldlM (round world ((rafp argv).getD .inet) name) { m with ifrName }
    if calls.2 = .running then do
      let g ← processMediaCommands name g
      let g ← deleteAddr name (rafp argv) g
      let g ← addAddr name (rafp argv) g
      pure g.toMemory
    else .exit

end Handlers

end Ifconfigd.Gate
