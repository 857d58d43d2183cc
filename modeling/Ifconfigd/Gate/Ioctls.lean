import Ifconfigd.Gate.Vector
import Ifconfigd.Lib.Dialogue

/-!
# The ioctls of the handlers

An ioctl takes the name of its interface from one of two globals: `ifr.ifr_name`, or
`name`, copied into a structure of the handler's own. This module lists, handler by
handler, the ioctls of `ifcutil.c` and `brconfig.c` in the order of the source and the
global each one uses.

A handler checks its arguments and the kernel's answers on the way, and may return or
end the process at any of them. Only those handlers are listed here that neither write
nor read the other globals of `ifcutil.h`; the rest is modelled in full in
`Gate.Globals`.
-/

namespace Ifconfigd.Gate

open CLib

/-- The requests, under the names of the source. -/
inductive Request
  | siocgifflags | siocsifflags | siocgifxflags | siocsifxflags | siocgifmetric | siocsifmetric
  | siocgifmtu | siocsifmtu | siocgifrdomain | siocsifrdomain | siocgifmedia | siocsifmedia
  | siocdifaddr | siocaifaddr | siocsifrtlabel | siocsifdescr | siocsifpriority | siocsiflladdr
  | siocifcreate | siocifdestroy | siocaifgroup | siocdifgroup | siocsiftimeslot
  | siocg80211nwid | siocs80211nwid | siocs80211bssid | siocs80211nwkey | siocg80211wpaparms
  | siocs80211wpaparms | siocs80211wpapsk | siocs80211channel | siocs80211txpower
  | siocg80211power | siocs80211power | siocg80211flags | siocs80211flags
  | siocgetvlan | siocsetvlan | siocgetvlanprio | siocsetvlanprio | siocsetkalive | siocsetlabel
  | siocgvh | siocsvh | siocgetpfsync | siocsetpfsync | siocsetpflow | siocslifphyaddr
  | siocdifphyaddr | siocslifphyrtable | pppoegetparms | pppoesetparms | siocgifgeneric
  | siocsifgeneric | siocstrunk | siocstrunkport | siocstrunkdelport
  | siocbrdgadd | siocbrdgdel | siocbrdgadds | siocbrdgdels | siocbrdggifflgs | siocbrdgsifflgs
  | siocbrdgflush | siocbrdgsaddr | siocbrdgdaddr | siocbrdgscache | siocbrdgrts | siocbrdgsht
  | siocbrdgsfd | siocbrdgsma | siocbrdgsproto | siocbrdgsifprio | siocbrdgsifcost | siocbrdgsto
  | siocbrdgstxhc | siocbrdgspri | siocbrdggrl | siocbrdgarl | siocbrdgfrl
  deriving DecidableEq, Repr

/-- Where the name in an ioctl's argument comes from. -/
inductive Via
  /-- `ifr` as it is, or a copy of it. -/
  | ifr
  /-- `ifr`, after `strlcpy(ifr.ifr_name, name, sizeof(ifr.ifr_name))`. -/
  | stored
  /-- Another structure, after `strlcpy` of `name` into it. -/
  | own
  deriving DecidableEq, Repr

/-- One ioctl of a handler. An optional one stands in a branch or in a loop. -/
structure Piece where
  via : Via
  request : Request
  optional : Bool
  deriving DecidableEq

def once (via : Via) (request : Request) : List Piece := [⟨via, request, false⟩]

/-- Read a structure, change it, write it back. -/
def update (via : Via) (get set : Request) : List Piece := once via get ++ once via set

/-- A loop, of at most `rounds` rounds. -/
def loop (rounds : Nat) (request : Request) : List Piece :=
  List.replicate rounds ⟨.own, request, true⟩

/-- The ioctls of a handler. -/
def script (rounds : Nat) : Handler → List Piece
  | .setifmetric => once .stored .siocsifmetric
  | .setifmtu => once .stored .siocsifmtu
  | .setifpriority => once .stored .siocsifpriority
  | .setiflladdr => once .stored .siocsiflladdr
  | .setinstance => once .stored .siocsifrdomain
  | .settimeslot => once .stored .siocsiftimeslot
  | .cloneCreate => once .stored .siocifcreate
  | .cloneDestroy => once .stored .siocifdestroy
  | .setifgroup => once .own .siocaifgroup
  | .unsetifgroup => once .own .siocdifgroup
  | .setifrtlabel => once .ifr .siocsifrtlabel
  | .setifdesc | .unsetifdesc => once .ifr .siocsifdescr
  | .setifnwid => once .stored .siocs80211nwid
  | .setifbssid => once .own .siocs80211bssid
  | .setifnwkey => once .own .siocs80211nwkey
  | .setifwpa | .setifwpaprotos | .setifwpaakms | .setifwpaciphers | .setifwpagroupcipher =>
      update .own .siocg80211wpaparms .siocs80211wpaparms
  | .setifwpakey =>
      -- without a key the network id is not read
      ⟨.stored, .siocg80211nwid, true⟩ ::
        (once .own .siocs80211wpapsk ++ update .own .siocg80211wpaparms .siocs80211wpaparms)
  | .setifchan => once .own .siocs80211channel
  | .setiftxpower => once .own .siocs80211txpower
  | .setifpowersave => update .own .siocg80211power .siocs80211power
  | .setifnwflag | .unsetifnwflag => update .ifr .siocg80211flags .siocs80211flags
  | .unsetvlandev => update .ifr .siocgetvlan .siocsetvlan
  | .setvlanprio => update .ifr .siocgetvlanprio .siocsetvlanprio
  | .setkeepalive | .unsetkeepalive => once .own .siocsetkalive
  | .setmpelabel => once .ifr .siocsetlabel
  | .setcarpPasswd | .setcarpVhid | .setcarpAdvskew | .setcarpAdvbase | .setcarppeer
  | .unsetcarppeer | .setcarpState | .setcarpdev | .unsetcarpdev | .setcarpNodes
  | .setcarpBalancing => update .ifr .siocgvh .siocsvh
  | .setpfsyncSyncdev | .unsetpfsyncSyncdev | .setpfsyncSyncpeer | .unsetpfsyncSyncpeer
  | .setpfsyncMaxupd | .setpfsyncDefer => update .ifr .siocgetpfsync .siocsetpfsync
  | .setpflowSender | .unsetpflowSender | .setpflowReceiver | .unsetpflowReceiver =>
      once .ifr .siocsetpflow
  | .settunnel => once .own .siocslifphyaddr
  | .deletetunnel => once .ifr .siocdifphyaddr
  | .settunnelinst => once .stored .siocslifphyrtable
  | .setpppoeDev | .setpppoeSvc | .setpppoeAc => update .own .pppoegetparms .pppoesetparms
  | .setspppproto | .setspppname | .setspppkey | .setsppppeerproto | .setsppppeername
  | .setsppppeerkey | .setsppppeerflag | .unsetsppppeerflag =>
      update .ifr .siocgifgeneric .siocsifgeneric
  | .settrunkport => once .own .siocstrunkport
  | .unsettrunkport => once .own .siocstrunkdelport
  | .settrunkproto => once .own .siocstrunk
  | .bridgeAdd => once .own .siocbrdgadd
  | .bridgeDelete => once .own .siocbrdgdel
  | .bridgeAddspan => once .own .siocbrdgadds
  | .bridgeDelspan => once .own .siocbrdgdels
  | .setdiscover | .unsetdiscover | .setblocknonip | .unsetblocknonip | .setlearn | .unsetlearn
  | .setstp | .unsetstp | .setedge | .unsetedge | .setautoedge | .unsetautoedge | .setptp
  | .unsetptp | .setautoptp | .unsetautoptp => update .own .siocbrdggifflgs .siocbrdgsifflgs
  | .bridgeFlush | .bridgeFlushall => once .own .siocbrdgflush
  | .bridgeAddaddr => once .own .siocbrdgsaddr
  | .bridgeDeladdr => once .own .siocbrdgdaddr
  | .bridgeMaxaddr => once .own .siocbrdgscache
  | .bridgeHellotime => once .own .siocbrdgsht
  | .bridgeFwddelay => once .own .siocbrdgsfd
  | .bridgeMaxage => once .own .siocbrdgsma
  | .bridgeProto => once .own .siocbrdgsproto
  | .bridgeIfprio => once .own .siocbrdgsifprio
  | .bridgeIfcost | .bridgeNoifcost => once .own .siocbrdgsifcost
  | .bridgeTimeout => once .own .siocbrdgsto
  | .bridgeHoldcnt => once .own .siocbrdgstxhc
  | .bridgePriority => once .own .siocbrdgspri
  -- the buffer is enlarged and the request repeated until the answer fits
  | .bridgeAddrs => loop rounds .siocbrdgrts
  | .bridgeRules => loop rounds .siocbrdggrl
  -- one rule for each line of the file
  | .bridgeRulefile => loop rounds .siocbrdgarl
  | .bridgeFlushrule => once .own .siocbrdgfrl
  -- `notrailers`, `setatrange` and `setatphase` make none
  | _ => []

end Ifconfigd.Gate
