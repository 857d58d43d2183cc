import Ifconfigd.Parse.Lexer
import Ifconfigd.Lib.Yacc

/-!
# The grammar's tables

The grammar of `parse.y` with the tables yacc makes of it: the LALR(1) automaton,
with conflicts settled for the shift or for the rule that comes first. A state that
shifts nothing and reduces by one rule only has this rule as its default reduction.

The comment before the row of a state shows the items it stands for, where the dot
marks how much of a rule was read.
-/

namespace Ifconfigd.Parse

/-- The tokens `'\n'`, `'{'` and `'}'`. -/
abbrev newline : Token := .char 10

abbrev lbrace : Token := .char 123

abbrev rbrace : Token := .char 125

/-- The left sides of the rules. The ones that end in `Action` stand for the actions
in the middle of a rule. -/
inductive Nonterm
  | grammar | optnl | nl | comma | yesno | include | stringSeq | varset | global
  | networkAction | network | networkoptsList | networkoptsl | ethernetAction | ethernet
  | ethernetBlock | ethernetoptsList | ethernetoptsl | wirelessAction | wireless
  | wirelessBlock | wirelessoptsList | wirelessoptsl | wpaAction | wpa | wpaBlock
  | wpaoptsList | wpaoptsl | wepAction | wep | wepBlock | wepoptsList | wepoptsl
  | staticopts
  deriving DecidableEq, Repr

/-- The left side of each rule and the length of its right side, in the order of the
source; rule 0 is the one yacc adds. An action inside a rule is a rule of its own
with an empty right side. -/
def rules : List (Nonterm × Nat) :=
  [(.grammar, 2),  -- 0 $accept : grammar $end
    (.grammar, 0),  -- 1 grammar :
    (.grammar, 3),  -- 2 grammar : grammar include '\n'
    (.grammar, 2),  -- 3 grammar : grammar '\n'
    (.grammar, 3),  -- 4 grammar : grammar global '\n'
    (.grammar, 3),  -- 5 grammar : grammar varset '\n'
    (.grammar, 3),  -- 6 grammar : grammar network '\n'
    (.grammar, 3),  -- 7 grammar : grammar error '\n'
    (.optnl, 2),  -- 8 optnl : '\n' optnl
    (.optnl, 0),  -- 9 optnl :
    (.nl, 2),  -- 10 nl : '\n' optnl
    (.comma, 1),  -- 11 comma : ','
    (.comma, 0),  -- 12 comma :
    (.yesno, 1),  -- 13 yesno : YES
    (.yesno, 1),  -- 14 yesno : NO
    (.include, 2),  -- 15 include : INCLUDE STRING
    (.stringSeq, 2),  -- 16 string : string STRING
    (.stringSeq, 1),  -- 17 string : STRING
    (.varset, 2),  -- 18 varset : STRING string
    (.global, 2),  -- 19 global : UPDATEINTERVAL NUMBER
    (.networkAction, 0),  -- 20 $$1 :
    (.network, 7),  -- 21 network : NETWORK STRING $$1 '{' optnl networkopts_l '}'
    (.networkoptsList, 3),  -- 22 networkopts_l : networkopts_l networkoptsl nl
    (.networkoptsList, 2),  -- 23 networkopts_l : networkoptsl optnl
    (.networkoptsl, 0),  -- 24 networkoptsl :
    (.networkoptsl, 1),  -- 25 networkoptsl : ethernet
    (.networkoptsl, 1),  -- 26 networkoptsl : wireless
    (.ethernetAction, 0),  -- 27 $$2 :
    (.ethernet, 4),  -- 28 ethernet : ETHERNETNAME STRING $$2 ethernet_block
    (.ethernetBlock, 4),  -- 29 ethernet_block : '{' optnl ethernetopts_l '}'
    (.ethernetBlock, 3),  -- 30 ethernet_block : '{' optnl '}'
    (.ethernetBlock, 0),  -- 31 ethernet_block :
    (.ethernetoptsList, 3),  -- 32 ethernetopts_l : ethernetopts_l ethernetoptsl nl
    (.ethernetoptsList, 1),  -- 33 ethernetopts_l : ethernetoptsl
    (.ethernetoptsl, 0),  -- 34 ethernetoptsl :
    (.ethernetoptsl, 2),  -- 35 ethernetoptsl : PRIORITY NUMBER
    (.ethernetoptsl, 2),  -- 36 ethernetoptsl : INTERFACE STRING
    (.ethernetoptsl, 2),  -- 37 ethernetoptsl : DHCP yesno
    (.ethernetoptsl, 1),  -- 38 ethernetoptsl : staticopts
    (.ethernetoptsl, 2),  -- 39 ethernetoptsl : LLADDR STRING
    (.ethernetoptsl, 2),  -- 40 ethernetoptsl : RUNUP STRING
    (.ethernetoptsl, 2),  -- 41 ethernetoptsl : RUNDOWN STRING
    (.wirelessAction, 0),  -- 42 $$3 :
    (.wireless, 4),  -- 43 wireless : WIRELESSNAME STRING $$3 wireless_block
    (.wirelessBlock, 4),  -- 44 wireless_block : '{' optnl wirelessopts_l '}'
    (.wirelessBlock, 3),  -- 45 wireless_block : '{' optnl '}'
    (.wirelessBlock, 0),  -- 46 wireless_block :
    (.wirelessoptsList, 3),  -- 47 wirelessopts_l : wirelessopts_l wirelessoptsl nl
    (.wirelessoptsList, 1),  -- 48 wirelessopts_l : wirelessoptsl
    (.wirelessoptsl, 0),  -- 49 wirelessoptsl :
    (.wirelessoptsl, 2),  -- 50 wirelessoptsl : PRIORITY NUMBER
    (.wirelessoptsl, 2),  -- 51 wirelessoptsl : INTERFACE STRING
    (.wirelessoptsl, 2),  -- 52 wirelessoptsl : NWID STRING
    (.wirelessoptsl, 2),  -- 53 wirelessoptsl : CHANNEL NUMBER
    (.wirelessoptsl, 2),  -- 54 wirelessoptsl : BSSID STRING
    (.wirelessoptsl, 2),  -- 55 wirelessoptsl : MINSIGNAL NUMBER
    (.wirelessoptsl, 2),  -- 56 wirelessoptsl : DHCP yesno
    (.wirelessoptsl, 1),  -- 57 wirelessoptsl : staticopts
    (.wirelessoptsl, 1),  -- 58 wirelessoptsl : wpa
    (.wirelessoptsl, 1),  -- 59 wirelessoptsl : wep
    (.wirelessoptsl, 2),  -- 60 wirelessoptsl : RUNUP STRING
    (.wirelessoptsl, 2),  -- 61 wirelessoptsl : RUNDOWN STRING
    (.wirelessoptsl, 2),  -- 62 wirelessoptsl : LLADDR STRING
    (.wpaAction, 0),  -- 63 $$4 :
    (.wpa, 3),  -- 64 wpa : WPA $$4 wpa_block
    (.wpaBlock, 4),  -- 65 wpa_block : '{' optnl wpaopts_l '}'
    (.wpaBlock, 3),  -- 66 wpa_block : '{' optnl '}'
    (.wpaBlock, 0),  -- 67 wpa_block :
    (.wpaoptsList, 3),  -- 68 wpaopts_l : wpaopts_l wpaoptsl nl
    (.wpaoptsList, 1),  -- 69 wpaopts_l : wpaoptsl
    (.wpaoptsl, 0),  -- 70 wpaoptsl :
    (.wpaoptsl, 2),  -- 71 wpaoptsl : WPAKEY STRING
    (.wpaoptsl, 2),  -- 72 wpaoptsl : WPAGROUPCIPHER STRING
    (.wpaoptsl, 2),  -- 73 wpaoptsl : WPAAKMS STRING
    (.wpaoptsl, 2),  -- 74 wpaoptsl : WPACIPHERS STRING
    (.wepAction, 0),  -- 75 $$5 :
    (.wep, 3),  -- 76 wep : WEP $$5 wep_block
    (.wepBlock, 4),  -- 77 wep_block : '{' optnl wepopts_l '}'
    (.wepBlock, 3),  -- 78 wep_block : '{' optnl '}'
    (.wepBlock, 0),  -- 79 wep_block :
    (.wepoptsList, 3),  -- 80 wepopts_l : wepopts_l wepoptsl nl
    (.wepoptsList, 1),  -- 81 wepopts_l : wepoptsl
    (.wepoptsl, 0),  -- 82 wepoptsl :
    (.wepoptsl, 2),  -- 83 wepoptsl : WEPKEY STRING
    (.staticopts, 0),  -- 84 staticopts :
    (.staticopts, 2),  -- 85 staticopts : DOMAINNAME STRING
    (.staticopts, 2),  -- 86 staticopts : DOMAINNAMESERVERS STRING
    (.staticopts, 2),  -- 87 staticopts : INET STRING
    (.staticopts, 2)]  -- 88 staticopts : NETMASK STRING
/-- A state: its default reduction, the states after the tokens it shifts, the rules
it reduces by before certain tokens, the state after the `error` token, and the
states after the left side of a rule. -/
structure Row where
  defred : Option Nat
  shifts : List (Token × Nat)
  reduces : List (Token × Nat)
  error : Option Nat
  gotos : List (Nonterm × Nat)

/-- The states of the automaton, from 0 on. -/
def rows : List Row :=
  [ -- 0  $accept : . grammar $end
    ⟨some 1, [], [], none, [(.grammar, 1)]⟩,
    -- 1  $accept : grammar . $end; grammar : grammar . include '\n'; grammar : grammar . '\n'; ...
    ⟨none, [(newline, 3), (.include, 8), (.updateinterval, 9), (.string, 10), (.network, 11)],
      [], some 7, [(.include, 2), (.global, 4), (.varset, 5), (.network, 6)]⟩,
    -- 2  grammar : grammar include . '\n'
    ⟨none, [(newline, 12)], [], none, []⟩,
    -- 3  grammar : grammar '\n' .
    ⟨some 3, [], [], none, []⟩,
    -- 4  grammar : grammar global . '\n'
    ⟨none, [(newline, 13)], [], none, []⟩,
    -- 5  grammar : grammar varset . '\n'
    ⟨none, [(newline, 14)], [], none, []⟩,
    -- 6  grammar : grammar network . '\n'
    ⟨none, [(newline, 15)], [], none, []⟩,
    -- 7  grammar : grammar error . '\n'
    ⟨none, [(newline, 16)], [], none, []⟩,
    -- 8  include : INCLUDE . STRING
    ⟨none, [(.string, 17)], [], none, []⟩,
    -- 9  global : UPDATEINTERVAL . NUMBER
    ⟨none, [(.number, 18)], [], none, []⟩,
    -- 10  varset : STRING . string
    ⟨none, [(.string, 20)], [], none, [(.stringSeq, 19)]⟩,
    -- 11  network : NETWORK . STRING $$1 '{' optnl networkopts_l '}'
    ⟨none, [(.string, 21)], [], none, []⟩,
    -- 12  grammar : grammar include '\n' .
    ⟨some 2, [], [], none, []⟩,
    -- 13  grammar : grammar global '\n' .
    ⟨some 4, [], [], none, []⟩,
    -- 14  grammar : grammar varset '\n' .
    ⟨some 5, [], [], none, []⟩,
    -- 15  grammar : grammar network '\n' .
    ⟨some 6, [], [], none, []⟩,
    -- 16  grammar : grammar error '\n' .
    ⟨some 7, [], [], none, []⟩,
    -- 17  include : INCLUDE STRING .
    ⟨some 15, [], [], none, []⟩,
    -- 18  global : UPDATEINTERVAL NUMBER .
    ⟨some 19, [], [], none, []⟩,
    -- 19  string : string . STRING; varset : STRING string .
    ⟨none, [(.string, 22)], [(newline, 18)], none, []⟩,
    -- 20  string : STRING .
    ⟨some 17, [], [], none, []⟩,
    -- 21  network : NETWORK STRING . $$1 '{' optnl networkopts_l '}'
    ⟨some 20, [], [], none, [(.networkAction, 23)]⟩,
    -- 22  string : string STRING .
    ⟨some 16, [], [], none, []⟩,
    -- 23  network : NETWORK STRING $$1 . '{' optnl networkopts_l '}'
    ⟨none, [(lbrace, 24)], [], none, []⟩,
    -- 24  network : NETWORK STRING $$1 '{' . optnl networkopts_l '}'
    ⟨none, [(newline, 26)], [(rbrace, 9), (.ethernetname, 9), (.wirelessname, 9)], none,
      [(.optnl, 25)]⟩,
    -- 25  network : NETWORK STRING $$1 '{' optnl . networkopts_l '}'
    ⟨none, [(.ethernetname, 31), (.wirelessname, 32)], [(newline, 24), (rbrace, 24)], none,
      [(.networkoptsList, 27), (.networkoptsl, 28), (.ethernet, 29), (.wireless, 30)]⟩,
    -- 26  optnl : '\n' . optnl
    ⟨none, [(newline, 26)], [(rbrace, 9), (.bssid, 9), (.channel, 9), (.dhcp, 9), (.domainname,
      9), (.domainnameservers, 9), (.ethernetname, 9), (.inet, 9), (.interface, 9), (.lladdr,
      9), (.minsignal, 9), (.netmask, 9), (.nwid, 9), (.priority, 9), (.rundown, 9), (.runup,
      9), (.wep, 9), (.wepkey, 9), (.wirelessname, 9), (.wpa, 9), (.wpaakms, 9), (.wpaciphers,
      9), (.wpagroupcipher, 9), (.wpakey, 9)], none, [(.optnl, 33)]⟩,
    -- 27  network : NETWORK STRING $$1 '{' optnl networkopts_l . '}'; ...
    ⟨none, [(.ethernetname, 31), (.wirelessname, 32), (rbrace, 34)], [(newline, 24)], none,
      [(.ethernet, 29), (.wireless, 30), (.networkoptsl, 35)]⟩,
    -- 28  networkopts_l : networkoptsl . optnl
    ⟨none, [(newline, 26)], [(rbrace, 9), (.ethernetname, 9), (.wirelessname, 9)], none,
      [(.optnl, 36)]⟩,
    -- 29  networkoptsl : ethernet .
    ⟨some 25, [], [], none, []⟩,
    -- 30  networkoptsl : wireless .
    ⟨some 26, [], [], none, []⟩,
    -- 31  ethernet : ETHERNETNAME . STRING $$2 ethernet_block
    ⟨none, [(.string, 37)], [], none, []⟩,
    -- 32  wireless : WIRELESSNAME . STRING $$3 wireless_block
    ⟨none, [(.string, 38)], [], none, []⟩,
    -- 33  optnl : '\n' optnl .
    ⟨some 8, [], [], none, []⟩,
    -- 34  network : NETWORK STRING $$1 '{' optnl networkopts_l '}' .
    ⟨some 21, [], [], none, []⟩,
    -- 35  networkopts_l : networkopts_l networkoptsl . nl
    ⟨none, [(newline, 40)], [], none, [(.nl, 39)]⟩,
    -- 36  networkopts_l : networkoptsl optnl .
    ⟨some 23, [], [], none, []⟩,
    -- 37  ethernet : ETHERNETNAME STRING . $$2 ethernet_block
    ⟨some 27, [], [], none, [(.ethernetAction, 41)]⟩,
    -- 38  wireless : WIRELESSNAME STRING . $$3 wireless_block
    ⟨some 42, [], [], none, [(.wirelessAction, 42)]⟩,
    -- 39  networkopts_l : networkopts_l networkoptsl nl .
    ⟨some 22, [], [], none, []⟩,
    -- 40  nl : '\n' . optnl
    ⟨none, [(newline, 26)], [(rbrace, 9), (.bssid, 9), (.channel, 9), (.dhcp, 9), (.domainname,
      9), (.domainnameservers, 9), (.ethernetname, 9), (.inet, 9), (.interface, 9), (.lladdr,
      9), (.minsignal, 9), (.netmask, 9), (.nwid, 9), (.priority, 9), (.rundown, 9), (.runup,
      9), (.wep, 9), (.wepkey, 9), (.wirelessname, 9), (.wpa, 9), (.wpaakms, 9), (.wpaciphers,
      9), (.wpagroupcipher, 9), (.wpakey, 9)], none, [(.optnl, 43)]⟩,
    -- 41  ethernet : ETHERNETNAME STRING $$2 . ethernet_block
    ⟨none, [(lbrace, 45)], [(newline, 31), (rbrace, 31), (.ethernetname, 31), (.wirelessname,
      31)], none, [(.ethernetBlock, 44)]⟩,
    -- 42  wireless : WIRELESSNAME STRING $$3 . wireless_block
    ⟨none, [(lbrace, 47)], [(newline, 46), (rbrace, 46), (.ethernetname, 46), (.wirelessname,
      46)], none, [(.wirelessBlock, 46)]⟩,
    -- 43  nl : '\n' optnl .
    ⟨some 10, [], [], none, []⟩,
    -- 44  ethernet : ETHERNETNAME STRING $$2 ethernet_block .
    ⟨some 28, [], [], none, []⟩,
    -- 45  ethernet_block : '{' . optnl ethernetopts_l '}'; ethernet_block : '{' . optnl '}'
    ⟨none, [(newline, 26)], [(rbrace, 9), (.dhcp, 9), (.domainname, 9), (.domainnameservers, 9),
      (.inet, 9), (.interface, 9), (.lladdr, 9), (.netmask, 9), (.priority, 9), (.rundown, 9),
      (.runup, 9)], none, [(.optnl, 48)]⟩,
    -- 46  wireless : WIRELESSNAME STRING $$3 wireless_block .
    ⟨some 43, [], [], none, []⟩,
    -- 47  wireless_block : '{' . optnl wirelessopts_l '}'; wireless_block : '{' . optnl '}'
    ⟨none, [(newline, 26)], [(rbrace, 9), (.bssid, 9), (.channel, 9), (.dhcp, 9), (.domainname,
      9), (.domainnameservers, 9), (.inet, 9), (.interface, 9), (.lladdr, 9), (.minsignal, 9),
      (.netmask, 9), (.nwid, 9), (.priority, 9), (.rundown, 9), (.runup, 9), (.wep, 9), (.wpa,
      9)], none, [(.optnl, 49)]⟩,
    -- 48  ethernet_block : '{' optnl . ethernetopts_l '}'; ethernet_block : '{' optnl . '}'
    ⟨none, [(rbrace, 51), (.priority, 53), (.interface, 54), (.dhcp, 55), (.lladdr, 57),
      (.runup, 58), (.rundown, 59), (.domainname, 60), (.domainnameservers, 61), (.inet, 62),
      (.netmask, 63)], [(newline, 34)], none, [(.ethernetoptsList, 50), (.ethernetoptsl, 52),
      (.staticopts, 56)]⟩,
    -- 49  wireless_block : '{' optnl . wirelessopts_l '}'; wireless_block : '{' optnl . '}'
    ⟨none, [(.domainname, 60), (.domainnameservers, 61), (.inet, 62), (.netmask, 63), (rbrace,
      65), (.priority, 67), (.interface, 68), (.nwid, 69), (.channel, 70), (.bssid, 71),
      (.minsignal, 72), (.dhcp, 73), (.runup, 77), (.rundown, 78), (.lladdr, 79), (.wpa, 80),
      (.wep, 81)], [(newline, 49)], none, [(.wirelessoptsList, 64), (.wirelessoptsl, 66),
      (.staticopts, 74), (.wpa, 75), (.wep, 76)]⟩,
    -- 50  ethernet_block : '{' optnl ethernetopts_l . '}'; ...
    ⟨none, [(.priority, 53), (.interface, 54), (.dhcp, 55), (.lladdr, 57), (.runup, 58),
      (.rundown, 59), (.domainname, 60), (.domainnameservers, 61), (.inet, 62), (.netmask, 63),
      (rbrace, 82)], [(newline, 34)], none, [(.staticopts, 56), (.ethernetoptsl, 83)]⟩,
    -- 51  ethernet_block : '{' optnl '}' .
    ⟨some 30, [], [], none, []⟩,
    -- 52  ethernetopts_l : ethernetoptsl .
    ⟨some 33, [], [], none, []⟩,
    -- 53  ethernetoptsl : PRIORITY . NUMBER
    ⟨none, [(.number, 84)], [], none, []⟩,
    -- 54  ethernetoptsl : INTERFACE . STRING
    ⟨none, [(.string, 85)], [], none, []⟩,
    -- 55  ethernetoptsl : DHCP . yesno
    ⟨none, [(.yes, 87), (.no, 88)], [], none, [(.yesno, 86)]⟩,
    -- 56  ethernetoptsl : staticopts .
    ⟨some 38, [], [], none, []⟩,
    -- 57  ethernetoptsl : LLADDR . STRING
    ⟨none, [(.string, 89)], [], none, []⟩,
    -- 58  ethernetoptsl : RUNUP . STRING
    ⟨none, [(.string, 90)], [], none, []⟩,
    -- 59  ethernetoptsl : RUNDOWN . STRING
    ⟨none, [(.string, 91)], [], none, []⟩,
    -- 60  staticopts : DOMAINNAME . STRING
    ⟨none, [(.string, 92)], [], none, []⟩,
    -- 61  staticopts : DOMAINNAMESERVERS . STRING
    ⟨none, [(.string, 93)], [], none, []⟩,
    -- 62  staticopts : INET . STRING
    ⟨none, [(.string, 94)], [], none, []⟩,
    -- 63  staticopts : NETMASK . STRING
    ⟨none, [(.string, 95)], [], none, []⟩,
    -- 64  wireless_block : '{' optnl wirelessopts_l . '}'; ...
    ⟨none, [(.domainname, 60), (.domainnameservers, 61), (.inet, 62), (.netmask, 63),
      (.priority, 67), (.interface, 68), (.nwid, 69), (.channel, 70), (.bssid, 71), (.minsignal,
      72), (.dhcp, 73), (.runup, 77), (.rundown, 78), (.lladdr, 79), (.wpa, 80), (.wep, 81),
      (rbrace, 96)], [(newline, 49)], none, [(.staticopts, 74), (.wpa, 75), (.wep, 76),
      (.wirelessoptsl, 97)]⟩,
    -- 65  wireless_block : '{' optnl '}' .
    ⟨some 45, [], [], none, []⟩,
    -- 66  wirelessopts_l : wirelessoptsl .
    ⟨some 48, [], [], none, []⟩,
    -- 67  wirelessoptsl : PRIORITY . NUMBER
    ⟨none, [(.number, 98)], [], none, []⟩,
    -- 68  wirelessoptsl : INTERFACE . STRING
    ⟨none, [(.string, 99)], [], none, []⟩,
    -- 69  wirelessoptsl : NWID . STRING
    ⟨none, [(.string, 100)], [], none, []⟩,
    -- 70  wirelessoptsl : CHANNEL . NUMBER
    ⟨none, [(.number, 101)], [], none, []⟩,
    -- 71  wirelessoptsl : BSSID . STRING
    ⟨none, [(.string, 102)], [], none, []⟩,
    -- 72  wirelessoptsl : MINSIGNAL . NUMBER
    ⟨none, [(.number, 103)], [], none, []⟩,
    -- 73  wirelessoptsl : DHCP . yesno
    ⟨none, [(.yes, 87), (.no, 88)], [], none, [(.yesno, 104)]⟩,
    -- 74  wirelessoptsl : staticopts .
    ⟨some 57, [], [], none, []⟩,
    -- 75  wirelessoptsl : wpa .
    ⟨some 58, [], [], none, []⟩,
    -- 76  wirelessoptsl : wep .
    ⟨some 59, [], [], none, []⟩,
    -- 77  wirelessoptsl : RUNUP . STRING
    ⟨none, [(.string, 105)], [], none, []⟩,
    -- 78  wirelessoptsl : RUNDOWN . STRING
    ⟨none, [(.string, 106)], [], none, []⟩,
    -- 79  wirelessoptsl : LLADDR . STRING
    ⟨none, [(.string, 107)], [], none, []⟩,
    -- 80  wpa : WPA . $$4 wpa_block
    ⟨some 63, [], [], none, [(.wpaAction, 108)]⟩,
    -- 81  wep : WEP . $$5 wep_block
    ⟨some 75, [], [], none, [(.wepAction, 109)]⟩,
    -- 82  ethernet_block : '{' optnl ethernetopts_l '}' .
    ⟨some 29, [], [], none, []⟩,
    -- 83  ethernetopts_l : ethernetopts_l ethernetoptsl . nl
    ⟨none, [(newline, 40)], [], none, [(.nl, 110)]⟩,
    -- 84  ethernetoptsl : PRIORITY NUMBER .
    ⟨some 35, [], [], none, []⟩,
    -- 85  ethernetoptsl : INTERFACE STRING .
    ⟨some 36, [], [], none, []⟩,
    -- 86  ethernetoptsl : DHCP yesno .
    ⟨some 37, [], [], none, []⟩,
    -- 87  yesno : YES .
    ⟨some 13, [], [], none, []⟩,
    -- 88  yesno : NO .
    ⟨some 14, [], [], none, []⟩,
    -- 89  ethernetoptsl : LLADDR STRING .
    ⟨some 39, [], [], none, []⟩,
    -- 90  ethernetoptsl : RUNUP STRING .
    ⟨some 40, [], [], none, []⟩,
    -- 91  ethernetoptsl : RUNDOWN STRING .
    ⟨some 41, [], [], none, []⟩,
    -- 92  staticopts : DOMAINNAME STRING .
    ⟨some 85, [], [], none, []⟩,
    -- 93  staticopts : DOMAINNAMESERVERS STRING .
    ⟨some 86, [], [], none, []⟩,
    -- 94  staticopts : INET STRING .
    ⟨some 87, [], [], none, []⟩,
    -- 95  staticopts : NETMASK STRING .
    ⟨some 88, [], [], none, []⟩,
    -- 96  wireless_block : '{' optnl wirelessopts_l '}' .
    ⟨some 44, [], [], none, []⟩,
    -- 97  wirelessopts_l : wirelessopts_l wirelessoptsl . nl
    ⟨none, [(newline, 40)], [], none, [(.nl, 111)]⟩,
    -- 98  wirelessoptsl : PRIORITY NUMBER .
    ⟨some 50, [], [], none, []⟩,
    -- 99  wirelessoptsl : INTERFACE STRING .
    ⟨some 51, [], [], none, []⟩,
    -- 100  wirelessoptsl : NWID STRING .
    ⟨some 52, [], [], none, []⟩,
    -- 101  wirelessoptsl : CHANNEL NUMBER .
    ⟨some 53, [], [], none, []⟩,
    -- 102  wirelessoptsl : BSSID STRING .
    ⟨some 54, [], [], none, []⟩,
    -- 103  wirelessoptsl : MINSIGNAL NUMBER .
    ⟨some 55, [], [], none, []⟩,
    -- 104  wirelessoptsl : DHCP yesno .
    ⟨some 56, [], [], none, []⟩,
    -- 105  wirelessoptsl : RUNUP STRING .
    ⟨some 60, [], [], none, []⟩,
    -- 106  wirelessoptsl : RUNDOWN STRING .
    ⟨some 61, [], [], none, []⟩,
    -- 107  wirelessoptsl : LLADDR STRING .
    ⟨some 62, [], [], none, []⟩,
    -- 108  wpa : WPA $$4 . wpa_block
    ⟨none, [(lbrace, 113)], [(newline, 67), (rbrace, 67), (.bssid, 67), (.channel, 67), (.dhcp,
      67), (.domainname, 67), (.domainnameservers, 67), (.inet, 67), (.interface, 67), (.lladdr,
      67), (.minsignal, 67), (.netmask, 67), (.nwid, 67), (.priority, 67), (.rundown, 67),
      (.runup, 67), (.wep, 67), (.wpa, 67)], none, [(.wpaBlock, 112)]⟩,
    -- 109  wep : WEP $$5 . wep_block
    ⟨none, [(lbrace, 115)], [(newline, 79), (rbrace, 79), (.bssid, 79), (.channel, 79), (.dhcp,
      79), (.domainname, 79), (.domainnameservers, 79), (.inet, 79), (.interface, 79), (.lladdr,
      79), (.minsignal, 79), (.netmask, 79), (.nwid, 79), (.priority, 79), (.rundown, 79),
      (.runup, 79), (.wep, 79), (.wpa, 79)], none, [(.wepBlock, 114)]⟩,
    -- 110  ethernetopts_l : ethernetopts_l ethernetoptsl nl .
    ⟨some 32, [], [], none, []⟩,
    -- 111  wirelessopts_l : wirelessopts_l wirelessoptsl nl .
    ⟨some 47, [], [], none, []⟩,
    -- 112  wpa : WPA $$4 wpa_block .
    ⟨some 64, [], [], none, []⟩,
    -- 113  wpa_block : '{' . optnl wpaopts_l '}'; wpa_block : '{' . optnl '}'
    ⟨none, [(newline, 26)], [(rbrace, 9), (.wpaakms, 9), (.wpaciphers, 9), (.wpagroupcipher, 9),
      (.wpakey, 9)], none, [(.optnl, 116)]⟩,
    -- 114  wep : WEP $$5 wep_block .
    ⟨some 76, [], [], none, []⟩,
    -- 115  wep_block : '{' . optnl wepopts_l '}'; wep_block : '{' . optnl '}'
    ⟨none, [(newline, 26)], [(rbrace, 9), (.wepkey, 9)], none, [(.optnl, 117)]⟩,
    -- 116  wpa_block : '{' optnl . wpaopts_l '}'; wpa_block : '{' optnl . '}'
    ⟨none, [(rbrace, 119), (.wpakey, 121), (.wpagroupcipher, 122), (.wpaakms, 123),
      (.wpaciphers, 124)], [(newline, 70)], none, [(.wpaoptsList, 118), (.wpaoptsl, 120)]⟩,
    -- 117  wep_block : '{' optnl . wepopts_l '}'; wep_block : '{' optnl . '}'
    ⟨none, [(rbrace, 126), (.wepkey, 128)], [(newline, 82)], none, [(.wepoptsList, 125),
      (.wepoptsl, 127)]⟩,
    -- 118  wpa_block : '{' optnl wpaopts_l . '}'; wpaopts_l : wpaopts_l . wpaoptsl nl
    ⟨none, [(.wpakey, 121), (.wpagroupcipher, 122), (.wpaakms, 123), (.wpaciphers, 124),
      (rbrace, 129)], [(newline, 70)], none, [(.wpaoptsl, 130)]⟩,
    -- 119  wpa_block : '{' optnl '}' .
    ⟨some 66, [], [], none, []⟩,
    -- 120  wpaopts_l : wpaoptsl .
    ⟨some 69, [], [], none, []⟩,
    -- 121  wpaoptsl : WPAKEY . STRING
    ⟨none, [(.string, 131)], [], none, []⟩,
    -- 122  wpaoptsl : WPAGROUPCIPHER . STRING
    ⟨none, [(.string, 132)], [], none, []⟩,
    -- 123  wpaoptsl : WPAAKMS . STRING
    ⟨none, [(.string, 133)], [], none, []⟩,
    -- 124  wpaoptsl : WPACIPHERS . STRING
    ⟨none, [(.string, 134)], [], none, []⟩,
    -- 125  wep_block : '{' optnl wepopts_l . '}'; wepopts_l : wepopts_l . wepoptsl nl
    ⟨none, [(.wepkey, 128), (rbrace, 135)], [(newline, 82)], none, [(.wepoptsl, 136)]⟩,
    -- 126  wep_block : '{' optnl '}' .
    ⟨some 78, [], [], none, []⟩,
    -- 127  wepopts_l : wepoptsl .
    ⟨some 81, [], [], none, []⟩,
    -- 128  wepoptsl : WEPKEY . STRING
    ⟨none, [(.string, 137)], [], none, []⟩,
    -- 129  wpa_block : '{' optnl wpaopts_l '}' .
    ⟨some 65, [], [], none, []⟩,
    -- 130  wpaopts_l : wpaopts_l wpaoptsl . nl
    ⟨none, [(newline, 40)], [], none, [(.nl, 138)]⟩,
    -- 131  wpaoptsl : WPAKEY STRING .
    ⟨some 71, [], [], none, []⟩,
    -- 132  wpaoptsl : WPAGROUPCIPHER STRING .
    ⟨some 72, [], [], none, []⟩,
    -- 133  wpaoptsl : WPAAKMS STRING .
    ⟨some 73, [], [], none, []⟩,
    -- 134  wpaoptsl : WPACIPHERS STRING .
    ⟨some 74, [], [], none, []⟩,
    -- 135  wep_block : '{' optnl wepopts_l '}' .
    ⟨some 77, [], [], none, []⟩,
    -- 136  wepopts_l : wepopts_l wepoptsl . nl
    ⟨none, [(newline, 40)], [], none, [(.nl, 139)]⟩,
    -- 137  wepoptsl : WEPKEY STRING .
    ⟨some 83, [], [], none, []⟩,
    -- 138  wpaopts_l : wpaopts_l wpaoptsl nl .
    ⟨some 68, [], [], none, []⟩,
    -- 139  wepopts_l : wepopts_l wepoptsl nl .
    ⟨some 80, [], [], none, []⟩]

/-- The second member of the first entry for `a`. -/
def entry {A : Type} [DecidableEq A] (entries : List (A × Nat)) (a : A) : Option Nat :=
  (entries.find? fun e => e.1 = a).map Prod.snd

def row (st : Nat) : Row := rows.getD st ⟨none, [], [], none, []⟩

/-- `YYMAXDEPTH`. -/
def yymaxdepth : Nat := 10000

/-- The tables of the parser. -/
def tables : Yacc.Tables Token where
  eof := .char 0
  defred st := (row st).defred
  shift st a := entry (row st).shifts a
  reduce st a := entry (row st).reduces a
  shiftError st := (row st).error
  len n := (rules.getD n (.grammar, 0)).2
  goal n := (rules.getD n (.grammar, 0)).1 = .grammar
  goto n st := (entry (row st).gotos (rules.getD n (.grammar, 0)).1).getD 0
  final := 1
  maxDepth := yymaxdepth

end Ifconfigd.Parse
