import Ifconfigd.Config
import Ifconfigd.Imsg

/-!
# The privileged parent

The parent reads the engine's requests from a pipe and acts on them: it connects
the ethernet section a request names, or runs the monitor. This module models
`main_dispatch_ifconfigde`, `use_ethernet` and `monitor`. What they call is given
by its outcomes: a call changes the world and returns, or it never returns
(`connect_ethernet` replaces the process by `dhclient` when it can, and
`ifconfig_gate` leaves through `errx`).
-/

namespace Ifconfigd.Parent

open CLib

/-- `MAX_NETWORK_NAME_SIZE`, the size of the local `name`. -/
def maxNetworkNameSize : Nat := 64

/-! ## Looking up a section -/

/-- `use_ethernet`: the section `connect_ethernet` is called on, for the name found
at a pointer. The comparison runs over the whole name field. -/
def useEthernet (conf : IfconfigdConf) (name : Nat → Byte) : Option (Ethernet StaticCfg) :=
  conf.ethernets.find? fun eth => strncmpZero nameSize (pointer eth.name fun _ => 0) name

/-! ## Dispatching requests -/

/-- What a request can make the parent do. -/
inductive Action
  | useEthernet (name : List Byte)
  | monitor
  deriving DecidableEq, Repr

/-- The rest of the parent as the dispatcher sees it: what an action does to the
world, `none` if it does not return, and the heap bytes that follow the payload of
the message just received. -/
structure Callees (W : Type) where
  perform : Action → W → Option W
  past : W → Nat → Byte

/-- The state of the event loop. -/
inductive Status
  | running
  /-- `event_loopexit` was called: the pipe is dead. -/
  | exiting
  /-- `fatal` was called. -/
  | fatal
  /-- An action has not returned. -/
  | busy
  deriving DecidableEq, Repr

/-- How far the dispatching has got: the world, the number of messages treated,
and the actions so far with the number of the message each was performed for. -/
structure Progress (W : Type) where
  world : W
  count : Nat
  actions : List (Nat × Action)

variable {W : Type} (env : Callees W)

/-- `memcpy(&name, imsg.data, sizeof(name))`. The copy has a fixed size, whatever
the size of the payload. -/
def copyName (w : W) (m : Imsg) : List Byte :=
  memcpy maxNetworkNameSize (pointer m.data (env.past w))

/-- Perform an action on behalf of the current message. An action that does not
return leaves the dispatcher with the list of actions begun so far. -/
def act (p : Progress W) (a : Action) : Except (List (Nat × Action)) (Progress W) :=
  match env.perform a p.world with
  | some world => .ok { p with world, actions := p.actions ++ [(p.count, a)] }
  | none => .error (p.actions ++ [(p.count, a)])

/-- The switch of `main_dispatch_ifconfigde`. The case for `IMSG_USE_ETHERNET` has
no `break` and continues into the next one. -/
def handleImsg (p : Progress W) (m : Imsg) : Except (List (Nat × Action)) (Progress W) := do
  let p ← match ImsgType.ofCode m.hdr.type with
    | some .useEthernet => do act env (← act env p (.useEthernet (copyName env p.world m))) .monitor
    | some .ifconfigdMonitor => act env p .monitor
    | _ => pure p
  return { p with count := p.count + 1 }

/-- The parent process: its end of the pipe and the progress made. -/
structure Process (W : Type) where
  iev : Imsgev
  status : Status
  progress : Progress W

/-- `main_dispatch_ifconfigde`. -/
def mainDispatchIfconfigde (proc : Process W) (event : Events) (recv : Recv) (send : Send) :
    Process W :=
  let read := if event.read then proc.iev.ibuf.imsgRead recv else (proc.iev.ibuf, 1)
  if read.2 = -1 then { proc with status := .fatal }
  else
    let shut := read.2 = 0
    let write := if event.write then read.1.msgbufWrite send else (read.1, 0)
    if write.2 = -1 then { proc with status := .fatal }
    else
      match Framing.loop Imsg.format (fun p frame => handleImsg env p (.ofFrame frame)) write.1.r
          proc.progress with
      | .error actions =>
          { proc with status := .busy, progress := { proc.progress with actions } }
      | .ok (progress, none) => { proc with status := .fatal, progress }
      | .ok (progress, some rest) =>
          let iev := { proc.iev with ibuf := { write.1 with r := rest } }
          if shut then ⟨iev, .exiting, progress⟩ else ⟨iev.imsgEventAdd, .running, progress⟩

/-- The event loop over the answers the pipe gives: data or an interrupted read.
Nothing happens any more once the loop has been left or an action hangs. -/
def eventLoop (proc : Process W) (answers : List Recv) : Process W :=
  answers.foldl
    (fun proc recv =>
      if proc.status = .running then mainDispatchIfconfigde env proc ⟨true, false⟩ recv .again
      else proc)
    proc

/-- The parent right after start-up. -/
def Process.init (fd : Nat) (pid : UInt32) (w : W) : Process W :=
  ⟨.init fd pid, .running, ⟨w, 0, []⟩⟩

/-! ## The monitor -/

/-- What a call of `monitor_ethernet` did: found no interface that came up, or
called `connect_ethernet`, which returned a value. -/
inductive EthernetOutcome
  | unchanged
  | connect (ret : Int)
  deriving DecidableEq, Repr

/-- The return value of `monitor_ethernet`. -/
def EthernetOutcome.value : EthernetOutcome → Int
  | .unchanged => 1
  | .connect ret => ret

/-- The calls `monitor` makes. -/
inductive MonitorCall
  | monitorEthernet
  | monitorWireless
  | sleep (seconds : Int)
  | logInfo (text : String)
  deriving DecidableEq, Repr

/-- One round of a function body: calls are recorded, `throw` is `return`. -/
abbrev Round := ExceptT Int (StateM (List MonitorCall))

def call (c : MonitorCall) : Round Unit := modify fun calls => calls ++ [c]

/-- The body of `monitor`'s loop. The first `if` has no braces, so it guards the log
message only and the `return` after it is unconditional. -/
def monitorBody (conf : IfconfigdConf) (ethernet : EthernetOutcome) (wireless : Int) :
    Round Unit := do
  call .monitorEthernet
  if ethernet.value ≠ 0 then
    call (.logInfo "ethernet connection successful")
  throw 0
  call .monitorWireless
  if wireless = 0 then
    call (.logInfo "wireless connection successful")
    throw 0
  call (.sleep conf.upinterval)

/-- The calls of round `k` and the value returned in it, if the loop gets there. -/
def monitorRound (conf : IfconfigdConf) (ethernet : Nat → EthernetOutcome)
    (wireless : Nat → Int) (k : Nat) : Except Int Unit × List MonitorCall :=
  (monitorBody conf (ethernet k) (wireless k)).run []

/-- Round `k` of `do … while (1)` is run: no earlier round returned. -/
def Reached (conf : IfconfigdConf) (ethernet : Nat → EthernetOutcome)
    (wireless : Nat → Int) (k : Nat) : Prop :=
  ∀ j < k, (monitorRound conf ethernet wireless j).1 = .ok ()

/-- A round of `monitor` found a connection. -/
def Connects (ethernet : Nat → EthernetOutcome) (wireless : Nat → Int) (k : Nat) : Prop :=
  ethernet k = .connect 0 ∨ wireless k = 0

/-- What `monitor` promises for given outcomes of the two functions it polls. -/
structure MonitorContract (conf : IfconfigdConf) (ethernet : Nat → EthernetOutcome)
    (wireless : Nat → Int) : Prop where
  returns : ∀ k, (Reached conf ethernet wireless k ∧
      (monitorRound conf ethernet wireless k).1 = .error 0) ↔
    (Connects ethernet wireless k ∧ ∀ j < k, ¬ Connects ethernet wireless j)
  polls : ∀ k, Reached conf ethernet wireless k → ethernet k ≠ .connect 0 →
    .monitorWireless ∈ (monitorRound conf ethernet wireless k).2
  continues : ∀ k, Reached conf ethernet wireless k → ¬ Connects ethernet wireless k →
    .sleep conf.upinterval ∈ (monitorRound conf ethernet wireless k).2 ∧
      Reached conf ethernet wireless (k + 1)

end Ifconfigd.Parent
