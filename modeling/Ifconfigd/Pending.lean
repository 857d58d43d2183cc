import Ifconfigd.Control.Requests
import Ifconfigd.Parent
import Ifconfigd.Lib.EventBase

/-!
# The pending events of the two processes

The engine and the parent wait in `event_dispatch` for their channels: the engine for
its clients and the pipe to the parent, the parent for the pipe to the engine. The
events are not persistent, so libevent deletes an event before it calls the handler,
and the handler adds it again with `imsg_event_add`. A message for the parent that is
composed while a client is served also adds the pipe's event again, in
`imsg_compose_event`.

Here the handlers are modelled with the event base they change. Without it they are
the handlers of the models of the engine and the parent.
-/

namespace Ifconfigd.Pending

open CLib Control

/-- The event structures of the engine: a connection's, named by its descriptor, and
the one of the pipe. -/
abbrev Base := EventBase (Option Nat) Events

/-- `imsg_event_add`. -/
def imsgEventAdd (b : Base) (k : Option Nat) (iev : Imsgev) : Imsgev × Base :=
  (iev.imsgEventAdd, b.readd k iev.imsgEventAdd.events)

/-- `imsg_compose_event`; `imsg_compose` may also be `refused` memory. -/
def imsgComposeEvent (refused : Bool) (b : Base) (k : Option Nat) (iev : Imsgev) (type : UInt16)
    (peerid pid : UInt32) (data : List Byte) : Imsgev × Base :=
  match if refused then none else iev.ibuf.imsgCompose type.toUInt32 peerid pid data with
  | some ibuf => imsgEventAdd b k { iev with ibuf }
  | none => (iev, b)

/-- One turn of the message loop of `control_dispatch_imsg`: the pipe and the base, and
how many messages have been composed. `refuses` says which of them are refused. -/
def handleImsg (refuses : Nat → Bool) (st : (Imsgev × Base) × Nat) (frame : List Byte) :
    Except Empty ((Imsgev × Base) × Nat) :=
  match controlForward (.ofFrame frame) with
  | some req =>
      .ok (imsgComposeEvent (refuses st.2) st.1.2 none st.1.1 req.type.toUInt16 0 0 req.data,
        st.2 + 1)
  | none => .ok st

/-- Whether the engine is in its event loop, has seen the end of the pipe and leaves the
loop, or has ended in `fatal`. -/
inductive Status
  | running | leaving | fatal
  deriving DecidableEq

/-- The engine in its event loop. -/
structure Loop where
  conns : List Imsgev
  parent : Imsgev
  base : Base
  status : Status

/-- `control_accept`, after a successful `accept`. -/
def controlAccept (l : Loop) (connfd : Nat) : Loop :=
  { l with
    conns := l.conns ++ [.init connfd l.parent.ibuf.pid]
    base := l.base.add (some connfd) ⟨true, false⟩ }

/-- `control_close`. -/
def controlClose (l : Loop) (fd : Nat) : Loop :=
  match controlConnbyfd l.conns fd with
  | none => l
  | some _ =>
      { l with
        conns := l.conns.eraseP fun c => c.ibuf.fd == fd
        base := l.base.del (some fd) }

/-- The message loop of `control_dispatch_imsg`, and the event it ends with. -/
def dispatchLoop (refuses : Nat → Bool) (l : Loop) (c : Imsgev) : Loop :=
  match Framing.loop Imsg.format (handleImsg refuses) c.ibuf.r ((l.parent, l.base), 0) with
  | .ok (((parent, base), _), none) => controlClose { l with parent, base } c.ibuf.fd
  | .ok (((parent, base), _), some rest) =>
      let armed := imsgEventAdd base (some c.ibuf.fd) { c with ibuf := { c.ibuf with r := rest } }
      { l with parent, base := armed.2, conns := storeConn l.conns armed.1 }

/-- `control_dispatch_imsg`. -/
def controlDispatchImsg (refuses : Nat → Bool) (l : Loop) (fd : Nat) (event : Events)
    (recv : Recv) (send : Send) : Loop :=
  match controlConnbyfd l.conns fd with
  | none => l
  | some c =>
      let read := if event.read then c.ibuf.imsgRead recv else (c.ibuf, 1)
      if read.2 = -1 ∨ read.2 = 0 then controlClose l fd
      else
        let write := if event.write then read.1.msgbufWrite send else (read.1, 0)
        if write.2 = -1 then controlClose l fd
        else dispatchLoop refuses l { c with ibuf := write.1 }

/-- The end of `ifconfigd_dispatch_parent`. -/
def rearmParent (l : Loop) (ibuf : Imsgbuf) : Loop :=
  let armed := imsgEventAdd l.base none { l.parent with ibuf }
  { l with parent := armed.1, base := armed.2 }

/-- `ifconfigd_dispatch_parent`. -/
def ifconfigdDispatchParent (l : Loop) (event : Events) (recv : Recv) (send : Send) : Loop :=
  match event with
  | ⟨true, false⟩ =>
      let read := l.parent.ibuf.imsgRead recv
      if read.2 = -1 then { l with status := .fatal }
      else if read.2 = 0 then { l with base := l.base.del none, status := .leaving }
      else
        match (Framing.drain Imsg.format read.1.r).2 with
        | none => { l with status := .fatal }
        | some rest => rearmParent l { read.1 with r := rest }
  | ⟨false, true⟩ =>
      let write := l.parent.ibuf.msgbufWrite send
      if write.2 = -1 then { l with status := .fatal } else rearmParent l write.1
  | _ => { l with status := .fatal }

/-- The engine as it enters `event_dispatch`. -/
def Loop.init (parentFd : Nat) (pid : UInt32) : Loop :=
  ⟨[], .init parentFd pid, EventBase.empty.add none ⟨true, false⟩, .running⟩

/-- libevent calls a handler with the conditions the event was added with, or with one
of them. -/
def Reports (added event : Events) : Prop :=
  event = added ∨ (event = ⟨true, false⟩ ∧ added.read = true) ∨
    (event = ⟨false, true⟩ ∧ added.write = true)

/-- `control_imsg_relay`, which sends a message to the client of a process. -/
def controlImsgRelay (refused : Bool) (l : Loop) (m : Imsg) : Loop :=
  match l.conns.find? fun c => c.ibuf.pid == m.hdr.pid with
  | none => l
  | some c =>
      let sent := imsgComposeEvent refused l.base (some c.ibuf.fd) c m.hdr.type.toUInt16 0 m.hdr.pid
        (m.data.take (m.hdr.len.toNat - Imsg.headerSize))
      { l with conns := storeConn l.conns sent.1, base := sent.2 }

/-- A call of one of the engine's handlers, or of the function that answers a client. -/
inductive Call
  | controlAccept (answer : Option Nat)
  | controlDispatchImsg (fd : Nat) (event : Events) (recv : Recv) (send : Send)
      (refuses : Nat → Bool)
  | ifconfigdDispatchParent (event : Events) (recv : Recv) (send : Send)
  | controlImsgRelay (m : Imsg) (refused : Bool)

/-- One call, from one return to `event_dispatch` to the next. A new descriptor is not
one of an open connection. -/
inductive Step : Loop → Call → Loop → Prop
  | acceptFailed {l : Loop} (hstatus : l.status ≠ .fatal) : Step l (.controlAccept none) l
  | accept {l : Loop} {fd : Nat} (hstatus : l.status ≠ .fatal)
      (hfresh : fd ∉ l.conns.map fun c => c.ibuf.fd) :
      Step l (.controlAccept (some fd)) (controlAccept l fd)
  | client {l : Loop} {fd : Nat} {event : Events} (added : Events) (recv : Recv) (send : Send)
      (refuses : Nat → Bool) (hstatus : l.status ≠ .fatal)
      (hadded : added ∈ l.base.conditions (some fd)) (hreports : Reports added event) :
      Step l (.controlDispatchImsg fd event recv send refuses)
        (controlDispatchImsg refuses { l with base := l.base.del (some fd) } fd event recv send)
  | parent {l : Loop} {event : Events} (added : Events) (recv : Recv) (send : Send)
      (hstatus : l.status ≠ .fatal) (hadded : added ∈ l.base.conditions none)
      (hreports : Reports added event) :
      Step l (.ifconfigdDispatchParent event recv send)
        (ifconfigdDispatchParent { l with base := l.base.del none } event recv send)
  | relay {l : Loop} (m : Imsg) (refused : Bool) (hstatus : l.status ≠ .fatal) :
      Step l (.controlImsgRelay m refused) (controlImsgRelay refused l m)

/-! ## Without the event base -/

/-- The engine's own globals. -/
def Loop.engine (l : Loop) : Engine := ⟨l.conns, l.parent, l.status = .running⟩

@[simp] theorem Loop.engine_conns (l : Loop) : l.engine.conns = l.conns := rfl

@[simp] theorem Loop.engine_parent (l : Loop) : l.engine.parent = l.parent := rfl

/-- What a turn of the message loop does to the pipe. -/
def forward (parent : Imsgev) (frame : List Byte) : Except Empty Imsgev :=
  match controlForward (.ofFrame frame) with
  | some req => .ok (ifconfigdeImsgComposeParent parent req)
  | none => .ok parent

theorem imsgComposeEvent_fst (b : Base) (k : Option Nat) (iev : Imsgev) (type : UInt16)
    (peerid pid : UInt32) (data : List Byte) :
    (imsgComposeEvent false b k iev type peerid pid data).1 =
      iev.imsgComposeEvent type peerid pid data := by
  rw [imsgComposeEvent, Imsgev.imsgComposeEvent, if_neg Bool.false_ne_true]
  cases iev.ibuf.imsgCompose type.toUInt32 peerid pid data <;> rfl

theorem loop_handleImsg_fst (buf : List Byte) (parent : Imsgev) (base : Base) :
    (Framing.loop Imsg.format (handleImsg fun _ => false) buf ((parent, base), 0)).map
        (Prod.map (fun st => st.1.1) id) =
      (Framing.loop Imsg.format Control.handleImsg buf (parent, [])).map
        (Prod.map Prod.fst id) := by
  have hleft : ∀ st frame, (handleImsg (fun _ => false) st frame).map (fun st => st.1.1) =
      forward st.1.1 frame := by
    intro st frame
    rw [handleImsg, forward]
    cases controlForward (.ofFrame frame) with
    | none => rfl
    | some req => exact congrArg Except.ok (imsgComposeEvent_fst ..)
  have hright : ∀ st frame, (Control.handleImsg st frame).map Prod.fst = forward st.1 frame := by
    intro st frame
    rw [Control.handleImsg, forward]
    cases controlForward (.ofFrame frame) <;> rfl
  rw [Framing.loop_map _ hleft, Framing.loop_map _ hright]

theorem controlClose_engine (l : Loop) (fd : Nat) (queued : List Request) :
    (controlClose l fd).engine = (Control.controlClose l.engine fd queued).engine := by
  rw [controlClose, Control.controlClose, Loop.engine_conns]
  cases controlConnbyfd l.conns fd <;> rfl

theorem dispatchLoop_engine (l : Loop) (c : Imsgev) :
    (dispatchLoop (fun _ => false) l c).engine = (Control.dispatchLoop l.engine c).engine := by
  have hloop := loop_handleImsg_fst c.ibuf.r l.parent l.base
  rw [dispatchLoop, Control.dispatchLoop, Loop.engine_parent]
  revert hloop
  generalize Framing.loop Imsg.format (handleImsg _) _ _ = left
  generalize Framing.loop Imsg.format Control.handleImsg _ _ = right
  intro hloop
  obtain ⟨⟨⟩⟩ | ⟨⟨⟨parent, base⟩, n⟩, rest⟩ := left
  obtain ⟨⟨⟩⟩ | ⟨⟨parent', queued⟩, rest'⟩ := right
  obtain ⟨rfl, rfl⟩ : parent = parent' ∧ rest = rest' := by simpa [Except.map] using hloop
  cases rest with
  | none => exact controlClose_engine ..
  | some rest => rfl

/-- While no message is refused memory, the handlers change the engine as in its own
model. -/
theorem controlDispatchImsg_engine (l : Loop) (fd : Nat) (event : Events) (recv : Recv)
    (send : Send) : (controlDispatchImsg (fun _ => false) l fd event recv send).engine =
      (Control.controlDispatchImsg l.engine fd event recv send).engine := by
  rw [controlDispatchImsg, Control.controlDispatchImsg, Loop.engine_conns]
  cases controlConnbyfd l.conns fd with
  | none => rfl
  | some c =>
      dsimp only
      generalize (if event.read = true then c.ibuf.imsgRead recv else (c.ibuf, 1)) = read
      generalize (if event.write = true then read.1.msgbufWrite send else (read.1, 0)) = write
      split
      · exact controlClose_engine ..
      · split
        · exact controlClose_engine ..
        · exact dispatchLoop_engine ..

theorem ifconfigdDispatchParent_engine (l : Loop) (event : Events) (recv : Recv) (send : Send) :
    (ifconfigdDispatchParent l event recv send).engine =
      Control.ifconfigdDispatchParent l.engine event recv send := by
  unfold ifconfigdDispatchParent Control.ifconfigdDispatchParent
  rw [Loop.engine_parent]
  obtain ⟨_ | _, _ | _⟩ := event
  · rfl
  · dsimp only
    split <;> rfl
  · generalize l.parent.ibuf.imsgRead recv = read
    dsimp only
    by_cases hfailed : read.2 = -1
    · rw [if_pos hfailed, if_pos (.inl hfailed)]
      rfl
    · by_cases hclosed : read.2 = 0
      · rw [if_neg hfailed, if_pos hclosed, if_pos (.inr hclosed)]
        rfl
      · rw [if_neg hfailed, if_neg hclosed, if_neg (not_or.2 ⟨hfailed, hclosed⟩)]
        cases (Framing.drain Imsg.format read.1.r).2 with
        | none => rfl
        | some rest => rfl
  · rfl

/-! ## The engine's invariant -/

/-- What a channel waits for: data, and room if messages are queued. -/
def wanted (iev : Imsgev) : Events := ⟨true, !iev.ibuf.w.isEmpty⟩

/-- Every channel but `k` is pending once, with what it should wait for, and no closed
connection is pending. -/
structure ArmedBut (k : Option (Option Nat)) (l : Loop) : Prop where
  nodup : (l.conns.map fun c => c.ibuf.fd).Nodup
  conns : ∀ c ∈ l.conns, k ≠ some (some c.ibuf.fd) →
    l.base.conditions (some c.ibuf.fd) = [wanted c]
  closed : ∀ fd, fd ∉ l.conns.map (fun c => c.ibuf.fd) → l.base.conditions (some fd) = []
  parent : l.status = .running → k ≠ some none → l.base.conditions none = [wanted l.parent]

section Engine

variable {l : Loop} {b : Base} {k j : Option Nat} {k' : Option (Option Nat)} {iev : Imsgev}

@[simp] theorem wanted_imsgEventAdd : wanted iev.imsgEventAdd = wanted iev := rfl

theorem imsgEventAdd_self : (imsgEventAdd b k iev).2.conditions k = [wanted iev] :=
  EventBase.conditions_readd_self

theorem imsgEventAdd_of_ne (h : j ≠ k) :
    (imsgEventAdd b k iev).2.conditions j = b.conditions j :=
  EventBase.conditions_readd_of_ne h

theorem imsgComposeEvent_of_ne {refused : Bool} {type : UInt16} {peerid pid : UInt32}
    {data : List Byte} (h : j ≠ k) :
    (imsgComposeEvent refused b k iev type peerid pid data).2.conditions j = b.conditions j := by
  rw [imsgComposeEvent]
  split
  · exact imsgEventAdd_of_ne h
  · rfl

/-- A message that is queued arms the channel; one that is refused leaves it as it
is. -/
theorem imsgComposeEvent_self {refused : Bool} {type : UInt16} {peerid pid : UInt32}
    {data : List Byte} (h : b.conditions k = [wanted iev]) :
    (imsgComposeEvent refused b k iev type peerid pid data).2.conditions k =
      [wanted (imsgComposeEvent refused b k iev type peerid pid data).1] := by
  rw [imsgComposeEvent]
  split
  · exact imsgEventAdd_self
  · exact h

theorem imsgComposeEvent_fd {refused : Bool} {type : UInt16} {peerid pid : UInt32}
    {data : List Byte} :
    (imsgComposeEvent refused b k iev type peerid pid data).1.ibuf.fd = iev.ibuf.fd := by
  rw [imsgComposeEvent]
  split
  · next ibuf hcompose =>
      rw [Imsgbuf.imsgCompose] at hcompose
      split at hcompose
      · cases hcompose
      · split at hcompose <;> cases hcompose
        rfl
  · rfl

/-- The message loop arms the pipe again whenever it queues a message. -/
theorem loop_handleImsg {refuses : Nat → Bool} {buf : List Byte} {parent parent' : Imsgev}
    {base base' : Base} {n : Nat} {rest : Option (List Byte)}
    (h : Framing.loop Imsg.format (handleImsg refuses) buf ((parent, base), 0) =
      .ok (((parent', base'), n), rest)) :
    (base.conditions none = [wanted parent] → base'.conditions none = [wanted parent']) ∧
      ∀ fd, base'.conditions (some fd) = base.conditions (some fd) := by
  refine Framing.loop_invariant
    (P := fun st => (base.conditions none = [wanted parent] →
      st.1.2.conditions none = [wanted st.1.1]) ∧
        ∀ fd, st.1.2.conditions (some fd) = base.conditions (some fd)) ?_ h ⟨id, fun _ => rfl⟩
  intro st frame st' hst hact
  rw [handleImsg] at hact
  split at hact
  · cases hact
    refine ⟨fun hbase => imsgComposeEvent_self (hst.1 hbase), fun fd => ?_⟩
    rw [imsgComposeEvent_of_ne (Option.some_ne_none fd)]
    exact hst.2 fd
  · cases hact
    exact hst

theorem map_fd_storeConn (conns : List Imsgev) (new : Imsgev) :
    (storeConn conns new).map (fun c => c.ibuf.fd) = conns.map fun c => c.ibuf.fd := by
  induction conns with
  | nil => rfl
  | cons c conns ih =>
      rw [storeConn]
      split
      · next h => rw [List.map_cons, List.map_cons, h]
      · rw [List.map_cons, List.map_cons, ih]

theorem mem_storeConn {conns : List Imsgev} (hnodup : (conns.map fun c => c.ibuf.fd).Nodup)
    {new c : Imsgev} (h : c ∈ storeConn conns new) :
    c = new ∨ c ∈ conns ∧ c.ibuf.fd ≠ new.ibuf.fd := by
  induction conns with
  | nil => cases h
  | cons d conns ih =>
      rw [List.map_cons, List.nodup_cons] at hnodup
      rw [storeConn] at h
      split at h
      · next heq =>
          rcases List.mem_cons.1 h with rfl | hmem
          · exact .inl rfl
          · refine .inr ⟨List.mem_cons_of_mem _ hmem, fun hfd => hnodup.1 ?_⟩
            rw [heq, ← hfd]
            exact List.mem_map_of_mem hmem
      · next hne =>
          rcases List.mem_cons.1 h with rfl | hmem
          · exact .inr ⟨List.mem_cons_self, hne⟩
          · rcases ih hnodup.2 hmem with rfl | ⟨hmem, hfd⟩
            · exact .inl rfl
            · exact .inr ⟨List.mem_cons_of_mem _ hmem, hfd⟩

theorem mem_erase_conn {conns : List Imsgev} (hnodup : (conns.map fun c => c.ibuf.fd).Nodup)
    {fd : Nat} {c : Imsgev} (h : c ∈ conns.eraseP fun c => c.ibuf.fd == fd) :
    c ∈ conns ∧ c.ibuf.fd ≠ fd := by
  induction conns with
  | nil => cases h
  | cons d conns ih =>
      rw [List.map_cons, List.nodup_cons] at hnodup
      by_cases hd : d.ibuf.fd = fd
      · rw [List.eraseP_cons_of_pos (by simpa using hd)] at h
        refine ⟨List.mem_cons_of_mem _ h, fun hfd => hnodup.1 ?_⟩
        rw [hd, ← hfd]
        exact List.mem_map_of_mem h
      · rw [List.eraseP_cons_of_neg (by simpa using hd)] at h
        rcases List.mem_cons.1 h with rfl | hmem
        · exact ⟨List.mem_cons_self, hd⟩
        · obtain ⟨hmem, hfd⟩ := ih hnodup.2 hmem
          exact ⟨List.mem_cons_of_mem _ hmem, hfd⟩

/-- libevent has deleted the event. -/
theorem ArmedBut.del (h : ArmedBut none l) (k : Option Nat) :
    ArmedBut (some k) { l with base := l.base.del k } where
  nodup := h.nodup
  conns c hc hne := by
    rw [EventBase.conditions_del_of_ne fun heq => hne (by rw [heq])]
    exact h.conns c hc (Option.some_ne_none _).symm
  closed fd hfd := by
    by_cases hk : some fd = k
    · rw [← hk]
      exact EventBase.conditions_del_self
    · rw [EventBase.conditions_del_of_ne hk]
      exact h.closed fd hfd
  parent hstatus hne := by
    rw [EventBase.conditions_del_of_ne fun heq => hne (by rw [heq])]
    exact h.parent hstatus (Option.some_ne_none _).symm

/-- A connection that is not in the list needs no event. -/
theorem ArmedBut.of_not_mem {fd : Nat} (h : ArmedBut (some (some fd)) l)
    (hfd : ∀ c ∈ l.conns, c.ibuf.fd ≠ fd) : ArmedBut none l where
  nodup := h.nodup
  conns c hc _ := h.conns c hc fun heq => hfd c hc (by simpa using heq.symm)
  closed := h.closed
  parent hstatus _ := h.parent hstatus (by simp)

theorem ArmedBut.controlClose {fd : Nat} (h : ArmedBut (some (some fd)) l) :
    ArmedBut none (controlClose l fd) := by
  rw [Pending.controlClose]
  split
  · next hfind =>
      refine h.of_not_mem fun c hc heq => ?_
      have := List.find?_eq_none.1 hfind c hc
      simp [heq] at this
  · refine ⟨?_, ?_, ?_, ?_⟩
    · exact h.nodup.sublist (List.eraseP_sublist.map _)
    · intro c hc _
      obtain ⟨hmem, hne⟩ := mem_erase_conn h.nodup hc
      rw [EventBase.conditions_del_of_ne (by simpa using hne)]
      exact h.conns c hmem (by simpa using hne.symm)
    · intro fd' hfd'
      by_cases heq : fd' = fd
      · rw [heq]
        exact EventBase.conditions_del_self
      · rw [EventBase.conditions_del_of_ne (by simpa using heq)]
        refine h.closed fd' fun hmem => hfd' ?_
        obtain ⟨c, hc, rfl⟩ := List.mem_map.1 hmem
        exact List.mem_map_of_mem ((List.mem_eraseP_of_neg (by simpa using heq)).2 hc)
    · intro hstatus _
      rw [EventBase.conditions_del_of_ne (by simp)]
      exact h.parent hstatus (by simp)

/-- The event of a connection is added again, and the connection written back. -/
theorem ArmedBut.store {fd : Nat} (h : ArmedBut (some (some fd)) l) {c : Imsgev} {base : Base}
    (hc : c.ibuf.fd = fd) (hmem : fd ∈ l.conns.map fun c => c.ibuf.fd)
    (hself : base.conditions (some fd) = [wanted c])
    (hother : ∀ j, j ≠ some fd → base.conditions j = l.base.conditions j) :
    ArmedBut none { l with base, conns := storeConn l.conns c } where
  nodup := by
    rw [map_fd_storeConn]
    exact h.nodup
  conns d hd _ := by
    rcases mem_storeConn h.nodup hd with rfl | ⟨hd, hne⟩
    · rw [hc]
      exact hself
    · rw [hc] at hne
      rw [hother _ (by simpa using hne)]
      exact h.conns d hd (by simpa using hne.symm)
  closed fd' hfd' := by
    rw [map_fd_storeConn] at hfd'
    rw [hother _ fun heq => hfd' (by rwa [Option.some.inj heq])]
    exact h.closed fd' hfd'
  parent hstatus _ := by
    rw [hother _ (by simp)]
    exact h.parent hstatus (by simp)

/-- Only the pipe has changed. -/
theorem ArmedBut.pipe (h : ArmedBut k' l) {parent : Imsgev} {base : Base}
    (hpipe : l.base.conditions none = [wanted l.parent] → base.conditions none = [wanted parent])
    (hconns : ∀ fd, base.conditions (some fd) = l.base.conditions (some fd)) :
    ArmedBut k' { l with parent, base } where
  nodup := h.nodup
  conns c hc hne := (hconns _).trans (h.conns c hc hne)
  closed fd hfd := (hconns fd).trans (h.closed fd hfd)
  parent hstatus hne := hpipe (h.parent hstatus hne)

theorem ArmedBut.controlAccept {fd : Nat} (h : ArmedBut none l)
    (hfresh : fd ∉ l.conns.map fun c => c.ibuf.fd) : ArmedBut none (controlAccept l fd) where
  nodup := by
    rw [Pending.controlAccept, List.map_append, List.nodup_append]
    refine ⟨h.nodup, List.nodup_singleton _, fun fd' hfd' new hnew heq => hfresh ?_⟩
    obtain rfl : fd' = fd := heq.trans (List.mem_singleton.1 hnew)
    exact hfd'
  conns c hc hne := by
    rcases List.mem_append.1 hc with hold | hnew
    · rw [Pending.controlAccept, EventBase.conditions_add_of_ne]
      · exact h.conns c hold hne
      · intro heq
        exact hfresh (Option.some.inj heq ▸ List.mem_map_of_mem hold)
    · obtain rfl := List.mem_singleton.1 hnew
      exact EventBase.conditions_add_self (h.closed fd hfresh)
  closed fd' hfd' := by
    rw [Pending.controlAccept, List.map_append, List.mem_append, not_or] at hfd'
    rw [Pending.controlAccept, EventBase.conditions_add_of_ne]
    · exact h.closed fd' hfd'.1
    · rintro ⟨⟩
      exact hfd'.2 List.mem_cons_self
  parent hstatus hne := by
    rw [Pending.controlAccept, EventBase.conditions_add_of_ne (by simp)]
    exact h.parent hstatus hne

theorem imsgRead_fd (ibuf : Imsgbuf) (recv : Recv) : (ibuf.imsgRead recv).1.fd = ibuf.fd := by
  cases recv <;> rfl

theorem msgbufWrite_fd (ibuf : Imsgbuf) (send : Send) : (ibuf.msgbufWrite send).1.fd = ibuf.fd := by
  cases send with
  | bytes n =>
      rw [Imsgbuf.msgbufWrite]
      split <;> rfl
  | closed | again | failed => rfl

/-- Reading and writing leave the descriptor of a buffer as it is. -/
theorem served_fd (ibuf : Imsgbuf) (event : Events) (recv : Recv) (send : Send) :
    let read := if event.read then ibuf.imsgRead recv else (ibuf, 1)
    let write := if event.write then read.1.msgbufWrite send else (read.1, 0)
    write.1.fd = ibuf.fd := by
  dsimp only
  split <;> split <;> simp only [imsgRead_fd, msgbufWrite_fd]

theorem ArmedBut.dispatchLoop {c : Imsgev} (h : ArmedBut (some (some c.ibuf.fd)) l)
    (hmem : c.ibuf.fd ∈ l.conns.map fun c => c.ibuf.fd) (refuses : Nat → Bool) :
    ArmedBut none (dispatchLoop refuses l c) := by
  rw [Pending.dispatchLoop]
  split
  · next hloop =>
      obtain ⟨hpipe, hconns⟩ := loop_handleImsg hloop
      exact (h.pipe hpipe hconns).controlClose
  · next hloop =>
      obtain ⟨hpipe, hconns⟩ := loop_handleImsg hloop
      exact (h.pipe hpipe hconns).store rfl hmem imsgEventAdd_self fun j hj => imsgEventAdd_of_ne hj

theorem ArmedBut.controlDispatchImsg {fd : Nat} (h : ArmedBut (some (some fd)) l)
    (refuses : Nat → Bool) (event : Events) (recv : Recv) (send : Send) :
    ArmedBut none (controlDispatchImsg refuses l fd event recv send) := by
  rw [Pending.controlDispatchImsg]
  split
  · next hfind =>
      refine h.of_not_mem fun c hc heq => ?_
      have := List.find?_eq_none.1 hfind c hc
      simp [heq] at this
  · next c hfind =>
      obtain rfl := connbyfd_fd hfind
      have hmem : c.ibuf.fd ∈ l.conns.map fun c => c.ibuf.fd :=
        List.mem_map_of_mem (List.mem_of_find?_eq_some hfind)
      have hserved := served_fd c.ibuf event recv send
      revert hserved
      dsimp only
      generalize (if event.read = true then c.ibuf.imsgRead recv else (c.ibuf, 1)) = read
      generalize (if event.write = true then read.1.msgbufWrite send else (read.1, 0)) = write
      intro hserved
      split
      · exact h.controlClose
      · split
        · exact h.controlClose
        · rw [← hserved] at h hmem
          exact ArmedBut.dispatchLoop (c := { c with ibuf := write.1 }) h hmem refuses

theorem ArmedBut.rearmParent (h : ArmedBut (some none) l) (ibuf : Imsgbuf) :
    ArmedBut none (rearmParent l ibuf) where
  nodup := h.nodup
  conns c hc _ := by
    rw [Pending.rearmParent, imsgEventAdd_of_ne (by simp)]
    exact h.conns c hc (by simp)
  closed fd hfd := by
    rw [Pending.rearmParent, imsgEventAdd_of_ne (by simp)]
    exact h.closed fd hfd
  parent _ _ := imsgEventAdd_self

/-- The handler of the pipe ends in `fatal`, sees the end of the pipe or adds its event
again. -/
theorem ArmedBut.ifconfigdDispatchParent (h : ArmedBut (some none) l) (event : Events)
    (recv : Recv) (send : Send)
    (hstatus : (ifconfigdDispatchParent l event recv send).status ≠ .fatal) :
    ArmedBut none (ifconfigdDispatchParent l event recv send) := by
  revert hstatus
  unfold Pending.ifconfigdDispatchParent
  split
  · dsimp only
    split
    · exact fun hstatus => absurd rfl hstatus
    · split
      · -- the end of the pipe: the clients' events are untouched
        intro _
        refine ⟨h.nodup, fun c hc _ => ?_, fun fd hfd => ?_, fun hleft => by cases hleft⟩
        · rw [EventBase.conditions_del_of_ne (by simp)]
          exact h.conns c hc (by simp)
        · rw [EventBase.conditions_del_of_ne (by simp)]
          exact h.closed fd hfd
      · split
        · exact fun hstatus => absurd rfl hstatus
        · exact fun _ => h.rearmParent _
  · dsimp only
    split
    · exact fun hstatus => absurd rfl hstatus
    · exact fun _ => h.rearmParent _
  · exact fun hstatus => absurd rfl hstatus

theorem ArmedBut.controlImsgRelay (h : ArmedBut none l) (refused : Bool) (m : Imsg) :
    ArmedBut none (controlImsgRelay refused l m) := by
  rw [Pending.controlImsgRelay]
  split
  · exact h
  · next c hfind =>
      have hc : c ∈ l.conns := List.mem_of_find?_eq_some hfind
      have hbut : ArmedBut (some (some c.ibuf.fd)) l :=
        ⟨h.nodup, fun d hd _ => h.conns d hd (by simp), h.closed, fun hs _ => h.parent hs (by simp)⟩
      refine hbut.store ?_ (List.mem_map_of_mem hc) ?_ fun j hj => imsgComposeEvent_of_ne hj
      · exact imsgComposeEvent_fd
      · exact imsgComposeEvent_self (h.conns c hc (by simp))

theorem ArmedBut.init (parentFd : Nat) (pid : UInt32) : ArmedBut none (Loop.init parentFd pid) where
  nodup := List.nodup_nil
  conns c hc := by cases hc
  closed fd _ := by
    rw [Loop.init, EventBase.conditions_add_of_ne (by simp)]
    exact EventBase.conditions_empty
  parent _ _ := EventBase.conditions_add_self EventBase.conditions_empty

/-- Every call ends in `fatal` or with the events in place. -/
theorem ArmedBut.step {l' : Loop} {call : Call} (h : ArmedBut none l) (hstep : Step l call l')
    (hstatus : l'.status ≠ .fatal) : ArmedBut none l' := by
  cases hstep with
  | acceptFailed => exact h
  | accept _ hfresh => exact h.controlAccept hfresh
  | client => exact (h.del (some _)).controlDispatchImsg _ _ _ _
  | parent => exact (h.del none).ifconfigdDispatchParent _ _ _ hstatus
  | relay => exact h.controlImsgRelay _ _

theorem status_of_step {l' : Loop} {call : Call} (hstep : Step l call l') : l.status ≠ .fatal := by
  cases hstep <;> assumption

theorem ArmedBut.run {parentFd : Nat} {pid : UInt32} {calls : List Call}
    (hrun : Machine.Run Step (Loop.init parentFd pid) calls l) (hstatus : l.status ≠ .fatal) :
    ArmedBut none l :=
  Machine.Run.invariant (P := fun l => l.status ≠ .fatal → ArmedBut none l)
    (fun _ _ _ ih hstep hstatus => (ih (status_of_step hstep)).step hstep hstatus) hrun
    (fun _ => .init parentFd pid) hstatus

end Engine

/-! ## The parent -/

section Parent

variable {W : Type} (env : Parent.Callees W)

/-- The parent with the event of its end of the pipe. -/
structure ParentLoop (W : Type) where
  proc : Parent.Process W
  base : EventBase Unit Events

/-- `main_dispatch_ifconfigde`. -/
def mainDispatchIfconfigde (l : ParentLoop W) (event : Events) (recv : Recv) (send : Send) :
    ParentLoop W :=
  let proc := l.proc
  let read := if event.read then proc.iev.ibuf.imsgRead recv else (proc.iev.ibuf, 1)
  if read.2 = -1 then { l with proc := { proc with status := .fatal } }
  else
    let shut := read.2 = 0
    let write := if event.write then read.1.msgbufWrite send else (read.1, 0)
    if write.2 = -1 then { l with proc := { proc with status := .fatal } }
    else
      match Framing.loop Imsg.format (fun p frame => Parent.handleImsg env p (.ofFrame frame))
          write.1.r proc.progress with
      | .error actions =>
          { l with
            proc := { proc with status := .busy, progress := { proc.progress with actions } } }
      | .ok (progress, none) => { l with proc := { proc with status := .fatal, progress } }
      | .ok (progress, some rest) =>
          let iev := { proc.iev with ibuf := { write.1 with r := rest } }
          if shut then ⟨⟨iev, .exiting, progress⟩, l.base.del ()⟩
          else ⟨⟨iev.imsgEventAdd, .running, progress⟩, l.base.readd () iev.imsgEventAdd.events⟩

/-- The parent as it enters `event_dispatch`. -/
def ParentLoop.init (fd : Nat) (pid : UInt32) (w : W) : ParentLoop W :=
  ⟨.init fd pid w, EventBase.empty.add () ⟨true, false⟩⟩

/-- One call of the parent's handler. -/
inductive ParentStep : ParentLoop W → Events × Recv × Send → ParentLoop W → Prop
  | dispatch {l : ParentLoop W} {event : Events} (added : Events) (recv : Recv) (send : Send)
      (hstatus : l.proc.status = .running ∨ l.proc.status = .exiting)
      (hadded : added ∈ l.base.conditions ()) (hreports : Reports added event) :
      ParentStep l (event, recv, send)
        (mainDispatchIfconfigde env { l with base := l.base.del () } event recv send)

variable {env} {l : ParentLoop W}

/-- The parent's model is the one of its dispatcher, with the event base added. -/
theorem mainDispatchIfconfigde_proc (l : ParentLoop W) (event : Events) (recv : Recv)
    (send : Send) : (mainDispatchIfconfigde env l event recv send).proc =
      Parent.mainDispatchIfconfigde env l.proc event recv send := by
  rw [mainDispatchIfconfigde, Parent.mainDispatchIfconfigde]
  dsimp only
  generalize (if event.read = true then _ else _ : Imsgbuf × Int) = read
  split
  · rfl
  · generalize (if event.write = true then _ else _ : Imsgbuf × Int) = write
    split
    · rfl
    · generalize Framing.loop Imsg.format _ write.1.r l.proc.progress = looped
      rcases looped with actions | ⟨progress, _ | rest⟩
      · rfl
      · rfl
      · dsimp only
        split <;> rfl

/-- The handler does not come back, leaves the loop or adds its event again. -/
theorem mainDispatchIfconfigde_armed (event : Events) (recv : Recv) (send : Send) :
    (mainDispatchIfconfigde env l event recv send).proc.status = .running →
      (mainDispatchIfconfigde env l event recv send).base.conditions () =
        [wanted (mainDispatchIfconfigde env l event recv send).proc.iev] := by
  rw [mainDispatchIfconfigde]
  dsimp only
  generalize (if event.read = true then _ else _ : Imsgbuf × Int) = read
  split
  · intro h
    cases h
  · generalize (if event.write = true then _ else _ : Imsgbuf × Int) = write
    split
    · intro h
      cases h
    · split
      · intro h
        cases h
      · intro h
        cases h
      · split
        · intro h
          cases h
        · exact fun _ => EventBase.conditions_readd_self

theorem ParentLoop.run_armed {fd : Nat} {pid : UInt32} {w : W}
    {calls : List (Events × Recv × Send)}
    (hrun : Machine.Run (ParentStep env) (ParentLoop.init fd pid w) calls l)
    (hstatus : l.proc.status = .running) : l.base.conditions () = [wanted l.proc.iev] := by
  refine Machine.Run.invariant
    (P := fun l : ParentLoop W => l.proc.status = .running →
      l.base.conditions () = [wanted l.proc.iev]) ?_ hrun ?_ hstatus
  · intro l call l' _ hstep
    cases hstep with
    | dispatch added recv send => exact mainDispatchIfconfigde_armed _ recv send
  · exact fun _ => EventBase.conditions_add_self EventBase.conditions_empty

end Parent

/-! ## No channel is left without its event -/

/-- Whenever control is back in `event_dispatch`, in the engine every connection has
exactly one pending event, and so have both ends of the pipe until the other end is
closed. The event asks for data, and for room exactly if messages are queued. -/
theorem pending_of_run :
    (∀ (parentFd : Nat) (pid : UInt32) (calls : List Call) (l : Loop),
      Machine.Run Step (Loop.init parentFd pid) calls l → l.status ≠ .fatal →
        (∀ c ∈ l.conns, l.base.conditions (some c.ibuf.fd) = [⟨true, !c.ibuf.w.isEmpty⟩]) ∧
        (l.status = .running →
          l.base.conditions none = [⟨true, !l.parent.ibuf.w.isEmpty⟩])) ∧
    (∀ (W : Type) (env : Parent.Callees W) (fd : Nat) (pid : UInt32) (w : W)
      (calls : List (Events × Recv × Send)) (l : ParentLoop W),
      Machine.Run (ParentStep env) (ParentLoop.init fd pid w) calls l →
        l.proc.status = .running →
          l.base.conditions () = [⟨true, !l.proc.iev.ibuf.w.isEmpty⟩]) := by
  constructor
  · intro parentFd pid calls l hrun hstatus
    have h := ArmedBut.run hrun hstatus
    exact ⟨fun c hc => h.conns c hc (by simp), fun hrunning => h.parent hrunning (by simp)⟩
  · intro W env fd pid w calls l hrun hstatus
    exact ParentLoop.run_armed hrun hstatus

/-- A client's request. -/
def request : Recv := .bytes (Imsg.encode ⟨⟨ImsgType.useNetworks.code, 16, 0, 0, 0⟩, []⟩)

/-- The engine after a client has connected and sent the request. -/
def requestServed : Loop :=
  let l := controlAccept (.init 3 1) 5
  controlDispatchImsg (fun _ => false) { l with base := l.base.del (some 5) } 5 ⟨true, false⟩
    request .again

/-- The parent after an interrupted read. -/
def readInterrupted : ParentLoop Unit :=
  let l := ParentLoop.init 4 1 ()
  mainDispatchIfconfigde ⟨fun _ => some, fun _ _ => 0⟩ { l with base := l.base.del () }
    ⟨true, false⟩ .again .again

theorem pending_of_requestServed :
    requestServed.base.conditions (some 5) = [⟨true, false⟩] ∧
      requestServed.base.conditions none = [⟨true, true⟩] ∧
      readInterrupted.base.conditions () = [⟨true, false⟩] := by
  have haccept : Step (.init 3 1) (.controlAccept (some 5)) (controlAccept (.init 3 1) 5) :=
    .accept (by decide) (by decide)
  have hadded : ⟨true, false⟩ ∈ (controlAccept (.init 3 1) 5).base.conditions (some 5) := by decide
  have hclient : Step (controlAccept (.init 3 1) 5) _ requestServed :=
    .client _ request .again (fun _ => false) (by decide) hadded (.inl rfl)
  have hadded' : ⟨true, false⟩ ∈ (ParentLoop.init 4 1 ()).base.conditions () := by decide
  have hread : ParentStep _ (.init 4 1 ()) _ readInterrupted :=
    .dispatch _ .again .again (.inl rfl) hadded' (.inl rfl)
  obtain ⟨hconns, hpipe⟩ := pending_of_run.1 3 1 _ _
    (((Machine.Run.nil _).snoc haccept).snoc hclient) (by decide +kernel)
  have hparent := pending_of_run.2 Unit _ 4 1 () _ _ ((Machine.Run.nil _).snoc hread)
    (by decide +kernel)
  obtain ⟨c, hc, hfd, hidle⟩ : ∃ c ∈ requestServed.conns, c.ibuf.fd = 5 ∧ c.ibuf.w.isEmpty := by
    decide +kernel
  have hqueued : requestServed.parent.ibuf.w.isEmpty = false := by decide +kernel
  have hnone : readInterrupted.proc.iev.ibuf.w.isEmpty = true := by decide +kernel
  rw [hnone] at hparent
  rw [hqueued] at hpipe
  refine ⟨?_, hpipe (by decide +kernel), hparent⟩
  have hclient := hconns c hc
  rw [hfd, hidle] at hclient
  exact hclient

end Ifconfigd.Pending
