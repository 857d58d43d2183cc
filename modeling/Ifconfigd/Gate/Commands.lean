import Ifconfigd.Lib.Bytes

/-!
# The command table

`ifconfig_gate` and `ifconfig`'s `main` each walk a table `cmds`. The daemon's table
is a copy of the other one, without the two `wpapsk` entries; the entries for
IPv6 are compiled in under `INET6`, which the daemon's Makefile leaves out. A row
says how many of the following words a command takes and which handler it calls.
-/

namespace Ifconfigd.Gate

open CLib

/-- The handlers of the table, under the names of `ifcutil.c` and `brconfig.c`. -/
inductive Handler
  | setifflags | notealias | setifnetmask | setifmtu | setifnwid | setifbssid | setifnwkey
  | setifwpa | setifwpaakms | setifwpaciphers | setifwpagroupcipher | setifwpaprotos | setifwpakey
  | setifchan | setifscan | setifbroadaddr | setifprefixlen | setvlantag | setvlandev
  | unsetvlandev | setia6flags | setia6pltime | setia6vltime | setia6eui64 | setifxflags
  | setkeepalive | unsetkeepalive | setifgroup | unsetifgroup | notrailers | setifmetric
  | setifpowersave | setifpriority | setifrtlabel | setinstance | setatrange | setatphase
  | setmpelabel | setcarpAdvbase | setcarpAdvskew | setcarppeer | unsetcarppeer | setcarpPasswd
  | setcarpVhid | setvlanprio | setcarpState | setcarpdev | setcarpNodes | setcarpBalancing
  | unsetcarpdev | setpfsyncSyncdev | unsetpfsyncSyncdev | setpfsyncSyncpeer | unsetpfsyncSyncpeer
  | setpfsyncMaxupd | setpfsyncDefer | settunnel | deletetunnel | settunnelinst | setpppoeDev
  | setpppoeSvc | setpppoeAc | settimeslot | setiftxpower | settrunkport | unsettrunkport
  | settrunkproto | setspppproto | setspppname | setspppkey | setsppppeerproto | setsppppeername
  | setsppppeerkey | setsppppeerflag | unsetsppppeerflag | setifnwflag | unsetifnwflag
  | setpflowSender | unsetpflowSender | setpflowReceiver | unsetpflowReceiver | bridgeAdd
  | bridgeDelete | bridgeAddspan | bridgeDelspan | setdiscover | unsetdiscover | setblocknonip
  | unsetblocknonip | setlearn | unsetlearn | setstp | unsetstp | setedge | unsetedge
  | setautoedge | unsetautoedge | setptp | unsetptp | setautoptp | unsetautoptp | bridgeFlush
  | bridgeFlushall | bridgeAddaddr | bridgeDeladdr | bridgeMaxaddr | bridgeAddrs | bridgeHellotime
  | bridgeFwddelay | bridgeMaxage | bridgeProto | bridgeIfprio | bridgeIfcost | bridgeNoifcost
  | bridgeTimeout | bridgeHoldcnt | bridgePriority | setifipdst | bridgeRules | bridgeRulefile
  | bridgeFlushrule | setifdesc | unsetifdesc | cloneDestroy | setmedia | setmediaopt
  | unsetmediaopt | setmediamode | setmediainst | setiflladdr | setifaddr | setifdstaddr
  | cloneCreate
  deriving DecidableEq, Repr

/-- `c_parameter`: a convention for the following words, or the value passed on. -/
inductive Parameter
  /-- `NEXTARG0`: the next word, if it is not a command itself. -/
  | nextarg0
  | nextarg
  | nextarg2
  | value (v : Int)
  deriving DecidableEq, Repr

/-- `c_action`, the deferred media work of a command. -/
inductive MediaAction
  | media | mediaoptset | mediaoptclr | mediainst | mediamode
  deriving DecidableEq, Repr

/-- `struct cmd`. -/
structure Cmd where
  name : CStr
  parameter : Parameter
  action : Option MediaAction
  func : Handler
  deriving DecidableEq

/-- The table up to the wireless keys. -/
def cmdsBase : List Cmd :=
   [⟨.lit "up", .value 1, none, .setifflags⟩, ⟨.lit "down", .value (-1), none, .setifflags⟩,
    ⟨.lit "arp", .value (-128), none, .setifflags⟩, ⟨.lit "-arp", .value 128, none, .setifflags⟩,
    ⟨.lit "debug", .value 4, none, .setifflags⟩, ⟨.lit "-debug", .value (-4), none, .setifflags⟩,
    ⟨.lit "alias", .value 1, none, .notealias⟩, ⟨.lit "-alias", .value (-1), none, .notealias⟩,
    ⟨.lit "delete", .value (-1), none, .notealias⟩,
    ⟨.lit "netmask", .nextarg, none, .setifnetmask⟩, ⟨.lit "mtu", .nextarg, none, .setifmtu⟩,
    ⟨.lit "nwid", .nextarg, none, .setifnwid⟩, ⟨.lit "-nwid", .value (-1), none, .setifnwid⟩,
    ⟨.lit "bssid", .nextarg, none, .setifbssid⟩, ⟨.lit "-bssid", .value (-1), none, .setifbssid⟩,
    ⟨.lit "nwkey", .nextarg, none, .setifnwkey⟩, ⟨.lit "-nwkey", .value (-1), none, .setifnwkey⟩,
    ⟨.lit "wpa", .value 1, none, .setifwpa⟩, ⟨.lit "-wpa", .value 0, none, .setifwpa⟩,
    ⟨.lit "wpaakms", .nextarg, none, .setifwpaakms⟩,
    ⟨.lit "wpaciphers", .nextarg, none, .setifwpaciphers⟩,
    ⟨.lit "wpagroupcipher", .nextarg, none, .setifwpagroupcipher⟩,
    ⟨.lit "wpaprotos", .nextarg, none, .setifwpaprotos⟩,
    ⟨.lit "wpakey", .nextarg, none, .setifwpakey⟩,
    ⟨.lit "-wpakey", .value (-1), none, .setifwpakey⟩]

/-- Entries that only `ifconfig` has. -/
def cmdsWpapsk : List Cmd :=
   [⟨.lit "wpapsk", .nextarg, none, .setifwpakey⟩,
    ⟨.lit "-wpapsk", .value (-1), none, .setifwpakey⟩]

def cmdsLink : List Cmd :=
   [⟨.lit "chan", .nextarg0, none, .setifchan⟩, ⟨.lit "-chan", .value (-1), none, .setifchan⟩,
    ⟨.lit "scan", .nextarg0, none, .setifscan⟩,
    ⟨.lit "broadcast", .nextarg, none, .setifbroadaddr⟩,
    ⟨.lit "prefixlen", .nextarg, none, .setifprefixlen⟩,
    ⟨.lit "vlan", .nextarg, none, .setvlantag⟩, ⟨.lit "vlandev", .nextarg, none, .setvlandev⟩,
    ⟨.lit "-vlandev", .value 1, none, .unsetvlandev⟩]

/-- Entries compiled in under `INET6`. -/
def cmdsInet6 : List Cmd :=
   [⟨.lit "anycast", .value 1, none, .setia6flags⟩,
    ⟨.lit "-anycast", .value (-1), none, .setia6flags⟩,
    ⟨.lit "tentative", .value 2, none, .setia6flags⟩,
    ⟨.lit "-tentative", .value (-2), none, .setia6flags⟩,
    ⟨.lit "pltime", .nextarg, none, .setia6pltime⟩,
    ⟨.lit "vltime", .nextarg, none, .setia6vltime⟩, ⟨.lit "eui64", .value 0, none, .setia6eui64⟩,
    ⟨.lit "autoconfprivacy", .value 4, none, .setifxflags⟩,
    ⟨.lit "-autoconfprivacy", .value (-4), none, .setifxflags⟩,
    ⟨.lit "keepalive", .nextarg2, none, .setkeepalive⟩,
    ⟨.lit "-keepalive", .value 1, none, .unsetkeepalive⟩]

def cmdsRest : List Cmd :=
   [⟨.lit "group", .nextarg, none, .setifgroup⟩, ⟨.lit "-group", .nextarg, none, .unsetifgroup⟩,
    ⟨.lit "trailers", .value (-1), none, .notrailers⟩,
    ⟨.lit "-trailers", .value 1, none, .notrailers⟩,
    ⟨.lit "metric", .nextarg, none, .setifmetric⟩,
    ⟨.lit "powersave", .nextarg0, none, .setifpowersave⟩,
    ⟨.lit "-powersave", .value (-1), none, .setifpowersave⟩,
    ⟨.lit "priority", .nextarg, none, .setifpriority⟩,
    ⟨.lit "rtlabel", .nextarg, none, .setifrtlabel⟩,
    ⟨.lit "-rtlabel", .value (-1), none, .setifrtlabel⟩,
    ⟨.lit "rdomain", .nextarg, none, .setinstance⟩, ⟨.lit "range", .nextarg, none, .setatrange⟩,
    ⟨.lit "phase", .nextarg, none, .setatphase⟩, ⟨.lit "mpls", .value 8, none, .setifxflags⟩,
    ⟨.lit "-mpls", .value (-8), none, .setifxflags⟩,
    ⟨.lit "mplslabel", .nextarg, none, .setmpelabel⟩,
    ⟨.lit "advbase", .nextarg, none, .setcarpAdvbase⟩,
    ⟨.lit "advskew", .nextarg, none, .setcarpAdvskew⟩,
    ⟨.lit "carppeer", .nextarg, none, .setcarppeer⟩,
    ⟨.lit "-carppeer", .value 1, none, .unsetcarppeer⟩,
    ⟨.lit "pass", .nextarg, none, .setcarpPasswd⟩, ⟨.lit "vhid", .nextarg, none, .setcarpVhid⟩,
    ⟨.lit "vlanprio", .nextarg, none, .setvlanprio⟩,
    ⟨.lit "state", .nextarg, none, .setcarpState⟩, ⟨.lit "carpdev", .nextarg, none, .setcarpdev⟩,
    ⟨.lit "carpnodes", .nextarg, none, .setcarpNodes⟩,
    ⟨.lit "balancing", .nextarg, none, .setcarpBalancing⟩,
    ⟨.lit "-carpdev", .value 1, none, .unsetcarpdev⟩,
    ⟨.lit "syncdev", .nextarg, none, .setpfsyncSyncdev⟩,
    ⟨.lit "-syncdev", .value 1, none, .unsetpfsyncSyncdev⟩,
    ⟨.lit "syncif", .nextarg, none, .setpfsyncSyncdev⟩,
    ⟨.lit "-syncif", .value 1, none, .unsetpfsyncSyncdev⟩,
    ⟨.lit "syncpeer", .nextarg, none, .setpfsyncSyncpeer⟩,
    ⟨.lit "-syncpeer", .value 1, none, .unsetpfsyncSyncpeer⟩,
    ⟨.lit "maxupd", .nextarg, none, .setpfsyncMaxupd⟩,
    ⟨.lit "defer", .value 1, none, .setpfsyncDefer⟩,
    ⟨.lit "-defer", .value 0, none, .setpfsyncDefer⟩,
    ⟨.lit "giftunnel", .nextarg2, none, .settunnel⟩, ⟨.lit "tunnel", .nextarg2, none, .settunnel⟩,
    ⟨.lit "deletetunnel", .value 0, none, .deletetunnel⟩,
    ⟨.lit "tunneldomain", .nextarg, none, .settunnelinst⟩,
    ⟨.lit "pppoedev", .nextarg, none, .setpppoeDev⟩,
    ⟨.lit "pppoesvc", .nextarg, none, .setpppoeSvc⟩,
    ⟨.lit "-pppoesvc", .value 1, none, .setpppoeSvc⟩,
    ⟨.lit "pppoeac", .nextarg, none, .setpppoeAc⟩, ⟨.lit "-pppoeac", .value 1, none, .setpppoeAc⟩,
    ⟨.lit "timeslot", .nextarg, none, .settimeslot⟩,
    ⟨.lit "txpower", .nextarg, none, .setiftxpower⟩,
    ⟨.lit "-txpower", .value 1, none, .setiftxpower⟩,
    ⟨.lit "trunkport", .nextarg, none, .settrunkport⟩,
    ⟨.lit "-trunkport", .nextarg, none, .unsettrunkport⟩,
    ⟨.lit "trunkproto", .nextarg, none, .settrunkproto⟩,
    ⟨.lit "authproto", .nextarg, none, .setspppproto⟩,
    ⟨.lit "authname", .nextarg, none, .setspppname⟩,
    ⟨.lit "authkey", .nextarg, none, .setspppkey⟩,
    ⟨.lit "peerproto", .nextarg, none, .setsppppeerproto⟩,
    ⟨.lit "peername", .nextarg, none, .setsppppeername⟩,
    ⟨.lit "peerkey", .nextarg, none, .setsppppeerkey⟩,
    ⟨.lit "peerflag", .nextarg, none, .setsppppeerflag⟩,
    ⟨.lit "-peerflag", .nextarg, none, .unsetsppppeerflag⟩,
    ⟨.lit "nwflag", .nextarg, none, .setifnwflag⟩,
    ⟨.lit "-nwflag", .nextarg, none, .unsetifnwflag⟩,
    ⟨.lit "flowsrc", .nextarg, none, .setpflowSender⟩,
    ⟨.lit "-flowsrc", .value 1, none, .unsetpflowSender⟩,
    ⟨.lit "flowdst", .nextarg, none, .setpflowReceiver⟩,
    ⟨.lit "-flowdst", .value 1, none, .unsetpflowReceiver⟩,
    ⟨.lit "-inet6", .value 2, none, .setifxflags⟩, ⟨.lit "add", .nextarg, none, .bridgeAdd⟩,
    ⟨.lit "del", .nextarg, none, .bridgeDelete⟩, ⟨.lit "addspan", .nextarg, none, .bridgeAddspan⟩,
    ⟨.lit "delspan", .nextarg, none, .bridgeDelspan⟩,
    ⟨.lit "discover", .nextarg, none, .setdiscover⟩,
    ⟨.lit "-discover", .nextarg, none, .unsetdiscover⟩,
    ⟨.lit "blocknonip", .nextarg, none, .setblocknonip⟩,
    ⟨.lit "-blocknonip", .nextarg, none, .unsetblocknonip⟩,
    ⟨.lit "learn", .nextarg, none, .setlearn⟩, ⟨.lit "-learn", .nextarg, none, .unsetlearn⟩,
    ⟨.lit "stp", .nextarg, none, .setstp⟩, ⟨.lit "-stp", .nextarg, none, .unsetstp⟩,
    ⟨.lit "edge", .nextarg, none, .setedge⟩, ⟨.lit "-edge", .nextarg, none, .unsetedge⟩,
    ⟨.lit "autoedge", .nextarg, none, .setautoedge⟩,
    ⟨.lit "-autoedge", .nextarg, none, .unsetautoedge⟩, ⟨.lit "ptp", .nextarg, none, .setptp⟩,
    ⟨.lit "-ptp", .nextarg, none, .unsetptp⟩, ⟨.lit "autoptp", .nextarg, none, .setautoptp⟩,
    ⟨.lit "-autoptp", .nextarg, none, .unsetautoptp⟩,
    ⟨.lit "flush", .value 0, none, .bridgeFlush⟩,
    ⟨.lit "flushall", .value 0, none, .bridgeFlushall⟩,
    ⟨.lit "static", .nextarg2, none, .bridgeAddaddr⟩,
    ⟨.lit "deladdr", .nextarg, none, .bridgeDeladdr⟩,
    ⟨.lit "maxaddr", .nextarg, none, .bridgeMaxaddr⟩, ⟨.lit "addr", .value 0, none, .bridgeAddrs⟩,
    ⟨.lit "hellotime", .nextarg, none, .bridgeHellotime⟩,
    ⟨.lit "fwddelay", .nextarg, none, .bridgeFwddelay⟩,
    ⟨.lit "maxage", .nextarg, none, .bridgeMaxage⟩, ⟨.lit "proto", .nextarg, none, .bridgeProto⟩,
    ⟨.lit "ifpriority", .nextarg2, none, .bridgeIfprio⟩,
    ⟨.lit "ifcost", .nextarg2, none, .bridgeIfcost⟩,
    ⟨.lit "-ifcost", .nextarg, none, .bridgeNoifcost⟩,
    ⟨.lit "timeout", .nextarg, none, .bridgeTimeout⟩,
    ⟨.lit "holdcnt", .nextarg, none, .bridgeHoldcnt⟩,
    ⟨.lit "spanpriority", .nextarg, none, .bridgePriority⟩,
    ⟨.lit "ipdst", .nextarg, none, .setifipdst⟩, ⟨.lit "rules", .nextarg, none, .bridgeRules⟩,
    ⟨.lit "rulefile", .nextarg, none, .bridgeRulefile⟩,
    ⟨.lit "flushrule", .nextarg, none, .bridgeFlushrule⟩,
    ⟨.lit "description", .nextarg, none, .setifdesc⟩, ⟨.lit "descr", .nextarg, none, .setifdesc⟩,
    ⟨.lit "-description", .value 1, none, .unsetifdesc⟩,
    ⟨.lit "-descr", .value 1, none, .unsetifdesc⟩, ⟨.lit "wol", .value 16, none, .setifxflags⟩,
    ⟨.lit "-wol", .value (-16), none, .setifxflags⟩,
    ⟨.lit "destroy", .value 0, none, .cloneDestroy⟩,
    ⟨.lit "link0", .value 4096, none, .setifflags⟩,
    ⟨.lit "-link0", .value (-4096), none, .setifflags⟩,
    ⟨.lit "link1", .value 8192, none, .setifflags⟩,
    ⟨.lit "-link1", .value (-8192), none, .setifflags⟩,
    ⟨.lit "link2", .value 16384, none, .setifflags⟩,
    ⟨.lit "-link2", .value (-16384), none, .setifflags⟩,
    ⟨.lit "media", .nextarg0, some .media, .setmedia⟩,
    ⟨.lit "mediaopt", .nextarg, some .mediaoptset, .setmediaopt⟩,
    ⟨.lit "-mediaopt", .nextarg, some .mediaoptclr, .unsetmediaopt⟩,
    ⟨.lit "mode", .nextarg, some .mediamode, .setmediamode⟩,
    ⟨.lit "instance", .nextarg, some .mediainst, .setmediainst⟩,
    ⟨.lit "inst", .nextarg, some .mediainst, .setmediainst⟩,
    ⟨.lit "lladdr", .nextarg, none, .setiflladdr⟩]

/-- `cmds` of `ifconfigd.c`, compiled with or without `INET6`. -/
def gateCmds (inet6 : Bool) : List Cmd :=
  cmdsBase ++ cmdsLink ++ (if inet6 then cmdsInet6 else []) ++ cmdsRest

/-- `cmds` of `ifconfig.c`, which is compiled with `INET6`. -/
def ifconfigCmds : List Cmd :=
  cmdsBase ++ cmdsWpapsk ++ cmdsLink ++ cmdsInet6 ++ cmdsRest

/-- The table row of a word; `none` is the end of the table, the positional entries. -/
def lookup (cmds : List Cmd) (word : CStr) : Option Cmd := cmds.find? fun c => c.name = word

end Ifconfigd.Gate
