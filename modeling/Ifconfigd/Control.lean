import Ifconfigd.Imsg
import Ifconfigd.Lib.Machine

/-!
# The control engine

The unprivileged engine accepts clients on the control socket, keeps one
`ctl_conn` for each, reads their requests and queues them for the parent. This
module models `control.c`, the engine's side of the parent pipe, and the part of
the kernel and of libevent they rest on: the descriptor table, the answers of
`accept`, `recvmsg` and `sendmsg`, and the rule that a handler is called for the
events it was registered with.

The system takes one event after the other. What a client sent is recorded as
the bytes handed to the engine on its connection, so that the requests queued
for the parent can be compared with the requests that have arrived.
-/

namespace Ifconfigd.Control

open CLib

/-- `MAX_NETWORK_NAME_SIZE`, the size of the name in a request. -/
def maxNetworkNameSize : Nat := 64

/-- `sizeof(imsg.data)`: the member is a pointer. -/
def sizeofImsgData : Nat := 8

/-- A request handed to `ifconfigde_imsg_compose_parent`: its type and payload. -/
structure Request where
  type : UInt32
  data : List Byte
  deriving DecidableEq, Repr

/-- The engine's globals: `ctl_conns` and `iev_parent`, and whether its event loop
still runs. -/
structure Engine where
  conns : List Imsgev
  parent : Imsgev
  running : Bool
  deriving DecidableEq, Repr

/-- `control_connbyfd`: the first connection on a descriptor. -/
def controlConnbyfd (conns : List Imsgev) (fd : Nat) : Option Imsgev :=
  conns.find? fun c => c.ibuf.fd == fd

/-- `control_accept`, after a successful `accept`. -/
def controlAccept (e : Engine) (connfd : Nat) : Engine :=
  { e with conns := e.conns ++ [.init connfd e.parent.ibuf.pid] }

/-- The switch of `control_dispatch_imsg`: the request passed on to the parent, if
any. A `USE_ETHERNET` of the wrong length, `SHOW_NETWORKS` and unknown types are
only logged. -/
def controlForward (m : Imsg) : Option Request :=
  match ImsgType.ofCode m.hdr.type with
  | some .useEthernet =>
      if m.hdr.len.toNat ≠ Imsg.headerSize + maxNetworkNameSize then none
      else some ⟨m.hdr.type, m.data.take sizeofImsgData⟩
  | some .useNetworks => some ⟨m.hdr.type, []⟩
  | some .useWireless => some ⟨m.hdr.type, []⟩
  | some .ifconfigdMonitor => some ⟨m.hdr.type, []⟩
  | some .showWireless => some ⟨m.hdr.type, []⟩
  | _ => none

/-- The type of a request as `imsg_compose_event` takes it, in sixteen bits. -/
def Request.narrow (req : Request) : Request :=
  { req with type := req.type.toUInt16.toUInt32 }

/-- `ifconfigde_imsg_compose_parent`. -/
def ifconfigdeImsgComposeParent (parent : Imsgev) (req : Request) : Imsgev :=
  parent.imsgComposeEvent req.type.toUInt16 0 0 req.data

/-- One turn of the message loop: the parent's queue, and the requests queued so
far by this dispatch. -/
def handleImsg (st : Imsgev × List Request) (frame : List Byte) :
    Except Empty (Imsgev × List Request) :=
  match controlForward (.ofFrame frame) with
  | some req => .ok (ifconfigdeImsgComposeParent st.1 req, st.2 ++ [req.narrow])
  | none => .ok st

/-- What a dispatch did: the new globals, the descriptor it closed and the
requests it queued. -/
structure Dispatched where
  engine : Engine
  closed : Option Nat
  queued : List Request

/-- `control_close`: drop the connection and close its descriptor. -/
def controlClose (e : Engine) (fd : Nat) (queued : List Request) : Dispatched :=
  match controlConnbyfd e.conns fd with
  | none => ⟨e, none, queued⟩
  | some _ => ⟨{ e with conns := e.conns.eraseP fun c => c.ibuf.fd == fd }, some fd, queued⟩

/-- Write a connection back through the pointer `control_connbyfd` returned. -/
def storeConn : List Imsgev → Imsgev → List Imsgev
  | [], _ => []
  | c :: cs, new => if c.ibuf.fd = new.ibuf.fd then new :: cs else c :: storeConn cs new

/-- The message loop of `control_dispatch_imsg`, from the buffer left by the reads
and writes before it. -/
def dispatchLoop (e : Engine) (c : Imsgev) : Dispatched :=
  match Framing.loop Imsg.format handleImsg c.ibuf.r (e.parent, []) with
  | .ok ((parent, queued), none) => controlClose { e with parent } c.ibuf.fd queued
  | .ok ((parent, queued), some rest) =>
      let c' := Imsgev.imsgEventAdd { c with ibuf := { c.ibuf with r := rest } }
      ⟨{ e with parent, conns := storeConn e.conns c' }, none, queued⟩

/-- `control_dispatch_imsg`. -/
def controlDispatchImsg (e : Engine) (fd : Nat) (event : Events) (recv : Recv) (send : Send) :
    Dispatched :=
  match controlConnbyfd e.conns fd with
  | none => ⟨e, none, []⟩
  | some c =>
      let read := if event.read then c.ibuf.imsgRead recv else (c.ibuf, 1)
      if read.2 = -1 ∨ read.2 = 0 then controlClose e fd []
      else
        let write := if event.write then read.1.msgbufWrite send else (read.1, 0)
        if write.2 = -1 then controlClose e fd []
        else dispatchLoop e { c with ibuf := write.1 }

/-- `ifconfigd_dispatch_parent`: the engine's end of the parent pipe. Every message
from the parent is ignored; a broken pipe, or data and room reported together,
ends the engine. -/
def ifconfigdDispatchParent (e : Engine) (event : Events) (recv : Recv) (send : Send) : Engine :=
  match event with
  | ⟨true, false⟩ =>
      let read := e.parent.ibuf.imsgRead recv
      if read.2 = -1 ∨ read.2 = 0 then { e with running := false }
      else
        match (Framing.drain Imsg.format read.1.r).2 with
        | none => { e with running := false }
        | some rest =>
            { e with parent := Imsgev.imsgEventAdd { e.parent with ibuf := { read.1 with r := rest } } }
  | ⟨false, true⟩ =>
      let write := e.parent.ibuf.msgbufWrite send
      if write.2 = -1 then { e with running := false }
      else { e with parent := Imsgev.imsgEventAdd { e.parent with ibuf := write.1 } }
  | _ => { e with running := false }

/-! ## The engine in its environment -/

/-- The engine together with the kernel's view of its clients: the open
descriptors with the number of the connection behind each, how many connections
have been accepted, the bytes read from each of them, and the requests queued for
the parent with the connection they came from. -/
structure System where
  engine : Engine
  connected : List (Nat × Nat)
  accepted : Nat
  input : Nat → List Byte
  queued : List (Nat × Request)

/-- The engine right after `control_listen`. -/
def System.init (parentFd : Nat) (pid : UInt32) : System :=
  ⟨⟨[], .init parentFd pid, true⟩, [], 0, fun _ => [], []⟩

/-- What can happen: a client connects (`none`: `accept` fails), the descriptor of
a client becomes ready, the parent pipe becomes ready. A client that closes its
end makes its descriptor readable with nothing to read. -/
inductive Event
  | accept (answer : Option Nat)
  | client (fd : Nat) (ready : Events) (recv : Recv) (send : Send)
  | parent (ready : Events) (recv : Recv) (send : Send)

/-- The descriptor an event is about, if it is a client's. -/
def Event.fd : Event → Option Nat
  | .accept answer => answer
  | .client fd _ _ _ => some fd
  | .parent _ _ _ => none

/-- The bytes a reported event makes `imsg_read` hand over. -/
def readBytes (event : Events) : Recv → List Byte
  | .bytes bs => if event.read then bs else []
  | _ => []

/-- The kernel's part of a dispatch on connection `k`: the bytes it handed over,
and the descriptor the handler closed. -/
def System.apply (sys : System) (k : Nat) (chunk : List Byte) (d : Dispatched) : System where
  engine := d.engine
  connected := match d.closed with
    | none => sys.connected
    | some fd => sys.connected.filter fun p => p.1 ≠ fd
  accepted := sys.accepted
  input := Function.update sys.input k (sys.input k ++ chunk)
  queued := sys.queued ++ d.queued.map fun req => (k, req)

/-- One event of the running engine. libevent calls the handler of a descriptor
only with events it was registered for, and not at all if none is ready. -/
def System.step (sys : System) : Event → System
  | .accept none => sys
  | .accept (some fd) =>
      { sys with
        engine := controlAccept sys.engine fd
        connected := sys.connected ++ [(fd, sys.accepted)]
        accepted := sys.accepted + 1 }
  | .client fd ready recv send =>
      match controlConnbyfd sys.engine.conns fd, sys.connected.lookup fd with
      | some c, some k =>
          let event := c.reported ready
          if event.read ∨ event.write then
            sys.apply k (readBytes event recv)
              (controlDispatchImsg sys.engine fd event recv send)
          else sys
      | _, _ => sys
  | .parent ready recv send =>
      let event := sys.engine.parent.reported ready
      if event.read ∨ event.write then
        { sys with engine := ifconfigdDispatchParent sys.engine event recv send }
      else sys

/-- What the kernel may answer: a new descriptor is not an open one, and a read
stays within the buffer it was given. -/
def System.Admissible (sys : System) : Event → Prop
  | .accept none => True
  | .accept (some fd) => fd ∉ sys.connected.map Prod.fst
  | .client fd _ recv _ => ∀ c ∈ controlConnbyfd sys.engine.conns fd, c.ibuf.Fits recv
  | .parent _ recv _ => sys.engine.parent.ibuf.Fits recv

instance (sys : System) : (e : Event) → Decidable (sys.Admissible e)
  | .accept none => isTrue trivial
  | .accept (some fd) => inferInstanceAs (Decidable (fd ∉ sys.connected.map Prod.fst))
  | .client fd _ recv _ => inferInstanceAs
      (Decidable (∀ c ∈ controlConnbyfd sys.engine.conns fd, c.ibuf.Fits recv))
  | .parent _ recv _ => inferInstanceAs (Decidable (sys.engine.parent.ibuf.Fits recv))

/-- One admissible step of the system while the engine runs. -/
def Step (sys : System) (e : Event) (sys' : System) : Prop :=
  sys.engine.running = true ∧ sys.Admissible e ∧ sys' = sys.step e

end Ifconfigd.Control
