import Ifconfigd.Parse.Tokens

/-!
# Abstract configurations

What a configuration file says, as a value of its own: the sections in the order they are
written, and for each section the options that are given. A value is printed in the layout
of `ifconfigd.conf`, one statement per line, and has a meaning: the structures the daemon
is to work with.

The types carry their bounds: names and interface names fit their fields, numbers are
`int`s, strings hold characters that can be quoted, and a section with `dhcp yes` has no
static options.
-/

namespace Ifconfigd.Parse

open CLib

/-- A string of at most `max` characters that can be written in double quotes: 7-bit,
without NUL, newline and backslash. -/
structure Text (max : Nat) where
  str : CStr
  quotable : ∀ b ∈ str.bytes, Quotable b
  short : str.length ≤ max

/-- A string value. -/
abbrev Value := Text 8000

/-- A number in the range of `int`. -/
structure CInt where
  val : Int
  low : -2 ^ 31 ≤ val
  high : val < 2 ^ 31

/-- The options with a fixed address. -/
structure StaticSpec where
  domainname : Option Value
  domainserver : Option Value
  inet : Option Value
  netmask : Option Value

def StaticSpec.none : StaticSpec := ⟨Option.none, Option.none, Option.none, Option.none⟩

structure EtherSpec where
  name : Text 63
  interface : Option (Text 15)
  priority : Option CInt
  dhcp : Option Bool
  lladdr : Option Value
  static : StaticSpec
  runUp : Option Value
  runDown : Option Value
  noStatic : dhcp = some true → static = .none

structure WpaSpec where
  wpakey : Option Value
  wpagroupcipher : Option Value
  wpaciphers : Option Value
  wpaakms : Option Value

/-- The blocks `wpa` and `wep` may be there or not, and may be empty. -/
structure WlanSpec where
  name : Text 63
  interface : Option (Text 15)
  priority : Option CInt
  nwid : Option Value
  bssid : Option Value
  chan : Option CInt
  minsignal : Option CInt
  dhcp : Option Bool
  lladdr : Option Value
  static : StaticSpec
  wpa : Option WpaSpec
  wep : Option (Option Value)
  runUp : Option Value
  runDown : Option Value
  noStatic : dhcp = some true → static = .none

structure NetSpec where
  name : Text 63
  sections : List (EtherSpec ⊕ WlanSpec)

structure ConfSpec where
  interval : CInt
  networks : List NetSpec
  long : 5 ≤ interval.val

/-! ## Printing -/

/-- A statement `keyword argument`. -/
def stmt (depth : Nat) (a : Token) (arg : Lexeme) : Line := ⟨depth, .keyword a, [arg]⟩

def stringLines {max : Nat} (depth : Nat) (a : Token) (o : Option (Text max)) : List Line :=
  (o.map fun t => stmt depth a (.quoted t.str)).toList

def numberLines (depth : Nat) (a : Token) (o : Option CInt) : List Line :=
  (o.map fun n => stmt depth a (.number n.val)).toList

def dhcpLines (depth : Nat) (o : Option Bool) : List Line :=
  (o.map fun yes => stmt depth .dhcp (.keyword (if yes then .yes else .no))).toList

/-- The first and the last line of a block, with the lines between them. -/
def block (depth : Nat) (first : Lexeme) (name : List Lexeme) (body : List Line) : List Line :=
  ⟨depth, first, name ++ [.lbrace]⟩ :: (body ++ [⟨depth, .rbrace, []⟩])

def StaticSpec.lines (s : StaticSpec) : List Line :=
  stringLines 2 .domainname s.domainname ++ (stringLines 2 .domainnameservers s.domainserver ++
    (stringLines 2 .inet s.inet ++ stringLines 2 .netmask s.netmask))

def EtherSpec.body (e : EtherSpec) : List Line :=
  stringLines 2 .interface e.interface ++ (numberLines 2 .priority e.priority ++
    (dhcpLines 2 e.dhcp ++ (stringLines 2 .lladdr e.lladdr ++ (e.static.lines ++
      (stringLines 2 .runup e.runUp ++ stringLines 2 .rundown e.runDown)))))

def EtherSpec.lines (e : EtherSpec) : List Line :=
  block 1 (.keyword .ethernetname) [.quoted e.name.str] e.body

def WpaSpec.lines (w : WpaSpec) : List Line :=
  block 2 (.keyword .wpa) [] (stringLines 3 .wpakey w.wpakey ++
    (stringLines 3 .wpagroupcipher w.wpagroupcipher ++
      (stringLines 3 .wpaciphers w.wpaciphers ++ stringLines 3 .wpaakms w.wpaakms)))

def wepLines (key : Option Value) : List Line :=
  block 2 (.keyword .wep) [] (stringLines 3 .wepkey key)

def WlanSpec.body (w : WlanSpec) : List Line :=
  stringLines 2 .interface w.interface ++ (numberLines 2 .priority w.priority ++
    (stringLines 2 .nwid w.nwid ++ (stringLines 2 .bssid w.bssid ++
      (numberLines 2 .channel w.chan ++ (numberLines 2 .minsignal w.minsignal ++
        (dhcpLines 2 w.dhcp ++ (stringLines 2 .lladdr w.lladdr ++ (w.static.lines ++
          (w.wpa.elim [] WpaSpec.lines ++ (w.wep.elim [] wepLines ++
            (stringLines 2 .runup w.runUp ++ stringLines 2 .rundown w.runDown)))))))))))

def WlanSpec.lines (w : WlanSpec) : List Line :=
  block 1 (.keyword .wirelessname) [.quoted w.name.str] w.body

def NetSpec.lines (n : NetSpec) : List Line :=
  block 0 (.keyword .network) [.quoted n.name.str]
    (n.sections.flatMap (Sum.elim EtherSpec.lines WlanSpec.lines))

def ConfSpec.lines (c : ConfSpec) : List Line :=
  stmt 0 .updateinterval (.number c.interval.val) :: c.networks.flatMap NetSpec.lines

/-- The text of a configuration file. -/
def ConfSpec.print (c : ConfSpec) : List Byte := c.lines.flatMap Line.text

/-! ## Meaning -/

/-- A field that holds a string, or zeros. -/
def field {max : Nat} (size : Nat) (o : Option (Text max)) : List Byte :=
  o.elim (List.replicate size 0) fun t => strncpy size t.str

def number (o : Option CInt) : Int := o.elim 0 CInt.val

def StaticSpec.meaning (s : StaticSpec) : StaticCfg where
  inet := s.inet.map Text.str
  netmask := s.netmask.map Text.str
  domainname := s.domainname.map Text.str
  domainserver := s.domainserver.map Text.str

/-- With `dhcp yes` an ethernet section has no static options. -/
def EtherSpec.meaning (e : EtherSpec) : Ethernet StaticCfg where
  name := strncpy nameSize e.name.str
  interface := field interfaceSize e.interface
  priority := number e.priority
  isdhcp := if e.dhcp = some true then 1 else 0
  staticopts := if e.dhcp = some true then none else some e.static.meaning
  lladdr := e.lladdr.map Text.str
  runUp := e.runUp.map Text.str
  runDown := e.runDown.map Text.str

def WpaSpec.meaning (w : WpaSpec) : WpaCfg where
  wpakey := w.wpakey.map Text.str
  wpagroupcipher := w.wpagroupcipher.map Text.str
  wpaciphers := w.wpaciphers.map Text.str
  wpaakms := w.wpaakms.map Text.str

/-- A wireless section always has structures for its static options and for WPA. -/
def WlanSpec.meaning (w : WlanSpec) : Wireless StaticCfg WpaCfg where
  name := strncpy nameSize w.name.str
  interface := field interfaceSize w.interface
  priority := number w.priority
  nwid := w.nwid.map Text.str
  bssid := w.bssid.map Text.str
  minsignal := number w.minsignal
  channel := number w.chan
  isdhcp := if w.dhcp = some true then 1 else 0
  staticopts := some w.static.meaning
  wpa := some (w.wpa.elim WpaCfg.zero WpaSpec.meaning)
  wepNwkex := (w.wep.bind id).map Text.str
  lladdr := w.lladdr.map Text.str
  runUp := w.runUp.map Text.str
  runDown := w.runDown.map Text.str

/-- The sections of each kind, in the reverse of the order they are written. -/
def NetSpec.meaning (n : NetSpec) : Network (Ethernet StaticCfg) (Wireless StaticCfg WpaCfg) where
  name := strncpy nameSize n.name.str
  ethernetList := (n.sections.filterMap Sum.getLeft?).reverse.map EtherSpec.meaning
  wirelessList := (n.sections.filterMap Sum.getRight?).reverse.map WlanSpec.meaning

def ConfSpec.meaning (c : ConfSpec) : IfconfigdConf where
  networkList := c.networks.reverse.map NetSpec.meaning
  upinterval := c.interval.val

end Ifconfigd.Parse
