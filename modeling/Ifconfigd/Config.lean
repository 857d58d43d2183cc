import Ifconfigd.Lib.Bytes

/-!
# Configuration records

The structures of `ifconfigd.h`. The containers are generic in what a pointer
member holds: the parser builds them in a heap, where a pointer is an index, and
the rest of the daemon reads them as a tree.

Names are declared as arrays of pointers, `char *name[64]`, but are used as
character arrays, so a name field has room for 512 bytes and an interface field
for 128 (pointers are 8 bytes).
-/

namespace Ifconfigd

open CLib

/-- `sizeof(network->name)`, and of the other two name fields. -/
def nameSize : Nat := 512

/-- `sizeof(ether->interface)`. -/
def interfaceSize : Nat := 128

/-- `MIN_UPDATE_INTERVAL`. -/
def minUpdateInterval : Int := 5

/-- `struct static_cfg`. -/
structure StaticCfg where
  inet : Option CStr
  netmask : Option CStr
  domainname : Option CStr
  domainserver : Option CStr
  deriving DecidableEq

/-- `struct wpa_cfg`. -/
structure WpaCfg where
  wpakey : Option CStr
  wpagroupcipher : Option CStr
  wpaciphers : Option CStr
  wpaakms : Option CStr
  deriving DecidableEq

/-- `struct ethernet`; `S` is what `staticopts` points to. -/
structure Ethernet (S : Type) where
  name : List Byte
  interface : List Byte
  priority : Int
  isdhcp : Int
  staticopts : Option S
  lladdr : Option CStr
  runUp : Option CStr
  runDown : Option CStr
  deriving DecidableEq

/-- `struct wireless`; `S` and `W` are what `staticopts` and `wpa` point to. -/
structure Wireless (S W : Type) where
  name : List Byte
  interface : List Byte
  priority : Int
  nwid : Option CStr
  bssid : Option CStr
  minsignal : Int
  channel : Int
  isdhcp : Int
  staticopts : Option S
  wpa : Option W
  wepNwkex : Option CStr
  lladdr : Option CStr
  runUp : Option CStr
  runDown : Option CStr
  deriving DecidableEq

/-- `struct network`; the lists are in list order, the head first. -/
structure Network (E W : Type) where
  name : List Byte
  ethernetList : List E
  wirelessList : List W
  deriving DecidableEq

/-- `struct ifconfigd_conf`, as far as the parser fills it. -/
structure Conf (N : Type) where
  networkList : List N
  upinterval : Int
  deriving DecidableEq

/-- A configuration read as a tree. -/
abbrev IfconfigdConf :=
  Conf (Network (Ethernet StaticCfg) (Wireless StaticCfg WpaCfg))

/-- What `calloc` returns for each structure. -/
def StaticCfg.zero : StaticCfg := ⟨none, none, none, none⟩

def WpaCfg.zero : WpaCfg := ⟨none, none, none, none⟩

def Ethernet.zero {S : Type} : Ethernet S :=
  ⟨List.replicate nameSize 0, List.replicate interfaceSize 0, 0, 0, none, none, none, none⟩

def Wireless.zero {S W : Type} : Wireless S W :=
  ⟨List.replicate nameSize 0, List.replicate interfaceSize 0, 0, none, none, 0, 0, 0, none, none,
    none, none, none, none⟩

def Network.zero {E W : Type} : Network E W := ⟨List.replicate nameSize 0, [], []⟩

def Conf.zero {N : Type} : Conf N := ⟨[], 0⟩

/-- All ethernet sections in the order `LIST_FOREACH` visits them. -/
def IfconfigdConf.ethernets (conf : IfconfigdConf) : List (Ethernet StaticCfg) :=
  conf.networkList.flatMap fun network => network.ethernetList

/-- A section carries the name `n`: the field holds what `strncpy` left there. -/
def Ethernet.Named {S : Type} (eth : Ethernet S) (n : CStr) : Prop :=
  eth.name = strncpy nameSize n

instance {S : Type} (eth : Ethernet S) (n : CStr) : Decidable (eth.Named n) :=
  inferInstanceAs (Decidable (_ = _))

end Ifconfigd
