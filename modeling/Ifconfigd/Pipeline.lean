import Ifconfigd.Control.Requests
import Ifconfigd.Selection

/-!
# The engine, the pipe and the parent

The engine queues requests for the parent on its end of a socket pair, and the parent
reads them at the other end. This module puts the two models together with the bytes
that are in the pipe: the engine writes part of its queue whenever the pipe has room, the
parent reads part of what is there, and clients come and go in between.

The first part says what a call of the engine's handlers does to the queue: it appends
whole requests, or takes bytes from its front.
-/

namespace Ifconfigd.Pipeline

open CLib Control
open Selection (forwarded)

/-! ## The engine's end -/

/-- The bytes of a request on the pipe. -/
def frameOf (pid : UInt32) (req : Request) : List Byte := (forwarded pid req).encode

/-- The data of a request is not longer than the engine's `sizeof(imsg.data)`. -/
def Short (req : Request) : Prop := req.data.length ≤ sizeofImsgData

theorem wellFormed_forwarded {pid : UInt32} {req : Request} (h : Short req) :
    (forwarded pid req).WellFormed := by
  have hlen : Imsg.headerSize + req.data.length < 2 ^ 16 := by
    unfold Short sizeofImsgData at h
    unfold Imsg.headerSize
    omega
  constructor
  · simpa [forwarded] using Nat.mod_eq_of_lt hlen
  · unfold Short sizeofImsgData at h
    simp only [forwarded, Imsg.headerSize, Imsg.maxImsgSize]
    omega

theorem controlForward_short {m : Imsg} {req : Request} (h : controlForward m = some req) :
    Short req.narrow := by
  unfold controlForward at h
  split at h
  · split at h
    · cases h
    · cases h
      exact (List.length_take_le _ _)
  all_goals
    cases h
    try exact Nat.zero_le _

theorem composeParent_narrow (iev : Imsgev) (req : Request) :
    ifconfigdeImsgComposeParent iev req.narrow = ifconfigdeImsgComposeParent iev req := by
  simp only [ifconfigdeImsgComposeParent, Request.narrow, UInt16.toUInt16_toUInt32]

/-- An end of a channel waits for data, and for room exactly if it has messages. -/
def Armed (iev : Imsgev) : Prop := iev.events = ⟨true, !iev.ibuf.w.isEmpty⟩

theorem armed_imsgEventAdd (iev : Imsgev) : Armed iev.imsgEventAdd := rfl

/-- `iev'` is `iev` with some requests added to its queue. -/
structure Queues (iev : Imsgev) (reqs : List Request) (iev' : Imsgev) : Prop where
  ibuf : iev'.ibuf = { iev.ibuf with w := iev.ibuf.w ++ reqs.map (frameOf iev.ibuf.pid) }
  armed : Armed iev → Armed iev'

theorem Queues.nil (iev : Imsgev) : Queues iev [] iev := ⟨by simp, id⟩

theorem Queues.trans {iev iev' iev'' : Imsgev} {reqs reqs' : List Request}
    (h : Queues iev reqs iev') (h' : Queues iev' reqs' iev'') :
    Queues iev (reqs ++ reqs') iev'' := by
  constructor
  · rw [h'.ibuf, h.ibuf]
    simp
  · intro harmed
    exact h'.armed (h.armed harmed)

theorem queues_compose (iev : Imsgev) {req : Request} (h : Short req) :
    Queues iev [req] (ifconfigdeImsgComposeParent iev req) := by
  have hfits : Imsg.headerSize + req.data.length ≤ Imsg.maxImsgSize :=
    (@wellFormed_forwarded 0 req h).2
  have hcompose : ifconfigdeImsgComposeParent iev req = Imsgev.imsgEventAdd
      { iev with ibuf := { iev.ibuf with w := iev.ibuf.w ++ [frameOf iev.ibuf.pid req] } } := by
    simp [ifconfigdeImsgComposeParent, Imsgev.imsgComposeEvent, Imsgbuf.imsgCompose, hfits,
      frameOf, forwarded, Request.narrow]
  rw [hcompose]
  exact ⟨rfl, fun _ => armed_imsgEventAdd _⟩

/-- The message loop of a dispatch puts the requests it reports in the queue, and nothing
else. -/
theorem foldlM_handleImsg_queues (frames : List (List Byte)) (parent : Imsgev)
    (queued : List Request) :
    ∃ parent' reqs, frames.foldlM handleImsg (parent, queued) = .ok (parent', queued ++ reqs) ∧
      (∀ req ∈ reqs, Short req) ∧ Queues parent reqs parent' := by
  induction frames generalizing parent queued with
  | nil => exact ⟨parent, [], by rw [List.append_nil]; rfl, List.forall_mem_nil _, .nil parent⟩
  | cons frame frames ih =>
      cases hfwd : controlForward (.ofFrame frame) with
      | none =>
          obtain ⟨parent', reqs, hfold, hshort, hqueues⟩ := ih parent queued
          refine ⟨parent', reqs, ?_, hshort, hqueues⟩
          simpa [List.foldlM_cons, handleImsg, hfwd, bind, Except.bind] using hfold
      | some req =>
          have hreq : Short req.narrow := controlForward_short hfwd
          obtain ⟨parent', reqs, hfold, hshort, hqueues⟩ :=
            ih (ifconfigdeImsgComposeParent parent req) (queued ++ [req.narrow])
          refine ⟨parent', req.narrow :: reqs, ?_, ?_, ?_⟩
          · simpa [List.foldlM_cons, handleImsg, hfwd, bind, Except.bind] using hfold
          · intro r hr
            rcases List.mem_cons.mp hr with rfl | hr
            · exact hreq
            · exact hshort r hr
          · have hfirst := queues_compose parent hreq
            rw [composeParent_narrow] at hfirst
            exact hfirst.trans hqueues

/-- What a dispatch on a client's descriptor does to the pipe's queue. -/
structure Enqueues (e : Engine) (d : Dispatched) : Prop where
  short : ∀ req ∈ d.queued, Short req
  queues : Queues e.parent d.queued d.engine.parent
  running : d.engine.running = e.running

theorem enqueues_controlClose {e e' : Engine} (fd : Nat) {queued : List Request}
    (hshort : ∀ req ∈ queued, Short req) (hqueues : Queues e.parent queued e'.parent)
    (hrunning : e'.running = e.running) : Enqueues e (controlClose e' fd queued) := by
  unfold controlClose
  split
  · exact ⟨hshort, hqueues, hrunning⟩
  · exact ⟨hshort, hqueues, hrunning⟩

theorem enqueues_dispatchLoop (e : Engine) (c : Imsgev) : Enqueues e (dispatchLoop e c) := by
  obtain ⟨parent, reqs, hfold, hshort, hqueues⟩ :=
    foldlM_handleImsg_queues (Framing.drain Imsg.format c.ibuf.r).1 e.parent []
  rw [List.nil_append] at hfold
  rw [dispatchLoop, Framing.loop_eq_foldlM, hfold]
  cases (Framing.drain Imsg.format c.ibuf.r).2 with
  | none => exact enqueues_controlClose c.ibuf.fd hshort hqueues rfl
  | some rest => exact ⟨hshort, hqueues, rfl⟩

theorem enqueues_controlDispatchImsg (e : Engine) (fd : Nat) (event : Events) (recv : Recv)
    (send : Send) : Enqueues e (controlDispatchImsg e fd event recv send) := by
  have hclose : Enqueues e (controlClose e fd []) :=
    enqueues_controlClose fd (List.forall_mem_nil _) (.nil e.parent) rfl
  unfold controlDispatchImsg
  split
  · exact ⟨List.forall_mem_nil _, .nil e.parent, rfl⟩
  · next c _ =>
    generalize (if event.read = true then c.ibuf.imsgRead recv else (c.ibuf, 1)) = read
    dsimp only
    generalize (if event.write = true then read.1.msgbufWrite send else (read.1, 0)) = write
    split
    · exact hclose
    · split
      · exact hclose
      · exact enqueues_dispatchLoop e _

/-! ### Writing -/

theorem msgbufDrain_flatten (w : List (List Byte)) (n : Nat) :
    (Imsgbuf.msgbufDrain w n).flatten = w.flatten.drop n := by
  induction w generalizing n with
  | nil => simp [Imsgbuf.msgbufDrain]
  | cons b w ih =>
      rw [Imsgbuf.msgbufDrain, List.flatten_cons, List.drop_append]
      split_ifs with hzero hwhole
      · simp [hzero]
      · rw [ih, List.drop_eq_nil_of_le hwhole, List.nil_append]
      · have hpart : n - b.length = 0 := by omega
        rw [hpart, List.drop_zero, List.flatten_cons]

theorem msgbufDrain_filled {w : List (List Byte)} (h : ∀ b ∈ w, b ≠ []) (n : Nat) :
    ∀ b ∈ Imsgbuf.msgbufDrain w n, b ≠ [] := by
  induction w generalizing n with
  | nil => exact List.forall_mem_nil _
  | cons b w ih =>
      have hrest : ∀ b ∈ w, b ≠ [] := fun c hc => h c (List.mem_cons_of_mem b hc)
      rw [Imsgbuf.msgbufDrain]
      split_ifs with hzero hwhole
      · exact h
      · exact ih hrest (n - b.length)
      · intro c hc
        rcases List.mem_cons.mp hc with rfl | hc
        · intro hnil
          exact hwhole (List.drop_eq_nil_iff.mp hnil)
        · exact hrest c hc

/-- The bytes a call of a handler makes `msgbuf_write` hand over. -/
def writtenBytes (iev : Imsgev) (event : Events) : Send → List Byte
  | .bytes n => if event.write then iev.ibuf.w.flatten.take n else []
  | _ => []

/-- `iev'` is what `iev` becomes when some bytes of its queue are written. -/
structure Writes (iev : Imsgev) (bytes : List Byte) (iev' : Imsgev) : Prop where
  pid : iev'.ibuf.pid = iev.ibuf.pid
  queue : bytes ++ iev'.ibuf.w.flatten = iev.ibuf.w.flatten
  filled : (∀ b ∈ iev.ibuf.w, b ≠ []) → ∀ b ∈ iev'.ibuf.w, b ≠ []
  armed : Armed iev → Armed iev'

theorem Writes.refl (iev : Imsgev) : Writes iev [] iev := ⟨rfl, rfl, id, id⟩

theorem writes_msgbufWrite (iev : Imsgev) (send : Send) :
    Writes iev (writtenBytes iev ⟨false, true⟩ send)
      (Imsgev.imsgEventAdd { iev with ibuf := (iev.ibuf.msgbufWrite send).1 }) := by
  have hsame : Writes iev [] iev.imsgEventAdd := ⟨rfl, rfl, id, fun _ => armed_imsgEventAdd _⟩
  cases send with
  | bytes n =>
      by_cases hzero : n = 0
      · simpa [Imsgbuf.msgbufWrite, writtenBytes, hzero] using hsame
      · simp only [Imsgbuf.msgbufWrite, writtenBytes, if_neg hzero, ↓reduceIte]
        refine ⟨rfl, ?_, fun hfilled => ?_, fun _ => armed_imsgEventAdd _⟩
        · change _ ++ (Imsgbuf.msgbufDrain iev.ibuf.w n).flatten = _
          rw [msgbufDrain_flatten, List.take_append_drop]
        · exact msgbufDrain_filled hfilled n
  | closed => exact hsame
  | again => exact hsame
  | failed => exact hsame

/-- The bytes the engine writes to the pipe in a call of its handler, which writes only
if it is not called for data. -/
def engineWrites (e : Engine) (event : Events) (send : Send) : List Byte :=
  if event.read then [] else writtenBytes e.parent event send

theorem eq_failed_of_msgbufWrite {b : Imsgbuf} {send : Send} (h : (b.msgbufWrite send).2 = -1) :
    send = .failed := by
  cases send with
  | bytes n =>
      by_cases hzero : n = 0 <;> simp [Imsgbuf.msgbufWrite, hzero] at h
  | closed => cases h
  | again => cases h
  | failed => rfl

theorem writes_imsgRead (iev : Imsgev) (recv : Recv) (rest : List Byte) :
    Writes iev []
      (Imsgev.imsgEventAdd { iev with ibuf := { (iev.ibuf.imsgRead recv).1 with r := rest } }) := by
  cases recv <;> exact ⟨rfl, rfl, id, fun _ => armed_imsgEventAdd _⟩

theorem writes_ifconfigdDispatchParent (e : Engine) (event : Events) (recv : Recv)
    (send : Send) :
    Writes e.parent (engineWrites e event send)
      (ifconfigdDispatchParent e event recv send).parent := by
  obtain ⟨_ | _, _ | _⟩ := event
  · cases send <;> exact .refl _
  · change Writes e.parent (writtenBytes e.parent ⟨false, true⟩ send) _
    unfold ifconfigdDispatchParent
    dsimp only
    split_ifs with hfailed
    · obtain rfl := eq_failed_of_msgbufWrite hfailed
      exact .refl _
    · exact writes_msgbufWrite e.parent send
  · change Writes e.parent [] _
    unfold ifconfigdDispatchParent
    dsimp only
    split_ifs
    · exact .refl _
    · split
      · exact .refl _
      · exact writes_imsgRead e.parent recv _
  · exact .refl _

/-! ## The two processes -/

section System

variable {W : Type}

/-- The engine with its clients, the bytes on their way in the two directions of the
socket pair, and the parent. -/
structure State (W : Type) where
  control : System
  toParent : List Byte
  toEngine : List Byte
  parent : Parent.Process W

def State.init (engineFd parentFd : Nat) (enginePid parentPid : UInt32) (w : W) : State W :=
  ⟨.init engineFd enginePid, [], [], .init parentFd parentPid w⟩

/-- The parent's end of the pipe is open. A parent whose action does not return holds on
to it. -/
def State.ParentOpen (s : State W) : Prop :=
  s.parent.status = .running ∨ s.parent.status = .busy

/-- What can happen: an event of the engine, or the parent's end becomes ready. -/
inductive Event
  | engine (e : Control.Event)
  | parent (ready : Events) (recv : Recv) (send : Send)

/-- The bytes an event of the engine puts in the pipe. -/
def State.puts (s : State W) : Control.Event → List Byte
  | .parent ready _ send =>
      engineWrites s.control.engine (s.control.engine.parent.reported ready) send
  | _ => []

/-- The bytes an event of the engine takes from the pipe. The handler does not read if it
is called for room too. -/
def State.takes (s : State W) : Control.Event → List Byte
  | .parent ready recv _ =>
      let event := s.control.engine.parent.reported ready
      if event.write then [] else readBytes event recv
  | _ => []

variable (env : Parent.Callees W)

/-- One event. As in the engine, a handler is called for the events it was registered
with. -/
def State.step (s : State W) : Event → State W
  | .engine e =>
      { s with
        control := s.control.step e
        toParent := s.toParent ++ s.puts e
        toEngine := s.toEngine.drop (s.takes e).length }
  | .parent ready recv send =>
      let event := s.parent.iev.reported ready
      if event.read ∨ event.write then
        { s with
          toParent := s.toParent.drop (readBytes event recv).length
          toEngine := s.toEngine ++ writtenBytes s.parent.iev event send
          parent := Parent.mainDispatchIfconfigde env s.parent event recv send }
      else s

/-- What a read from a pipe may answer: the bytes at its front, or its end once the
other side has closed it. -/
def Offers (pipe : List Byte) (closed : Prop) : Recv → Prop
  | .bytes b => b <+: pipe
  | .closed => pipe = [] ∧ closed
  | _ => True

/-- What a write may answer: never more bytes than there were to write. -/
def Accepts (iev : Imsgev) : Send → Prop
  | .bytes n => 0 < n ∧ n ≤ iev.ibuf.w.flatten.length
  | _ => True

/-- What the kernel may answer. The engine's end is readable only if the parent has
written to it or has closed its own. -/
def State.Admissible (s : State W) : Event → Prop
  | .engine (.parent ready recv send) =>
      s.control.Admissible (.parent ready recv send) ∧
        (ready.read = true → s.toEngine ≠ [] ∨ ¬s.ParentOpen) ∧
        Offers s.toEngine (¬s.ParentOpen) recv ∧ Accepts s.control.engine.parent send
  | .engine e => s.control.Admissible e
  | .parent _ recv send =>
      s.parent.iev.ibuf.Fits recv ∧ Offers s.toParent (s.control.engine.running = false) recv ∧
        Accepts s.parent.iev send

instance (pipe : List Byte) (closed : Prop) [Decidable closed] :
    (recv : Recv) → Decidable (Offers pipe closed recv)
  | .bytes b => inferInstanceAs (Decidable (b <+: pipe))
  | .closed => inferInstanceAs (Decidable (_ ∧ _))
  | .again | .failed => isTrue trivial

instance (iev : Imsgev) : (send : Send) → Decidable (Accepts iev send)
  | .bytes _ => inferInstanceAs (Decidable (_ ∧ _))
  | .closed | .again | .failed => isTrue trivial

instance (s : State W) : Decidable s.ParentOpen := inferInstanceAs (Decidable (_ ∨ _))

instance (s : State W) : (e : Event) → Decidable (s.Admissible e)
  | .engine (.parent _ _ _) => inferInstanceAs (Decidable (_ ∧ _))
  | .engine (.accept answer) => inferInstanceAs (Decidable (s.control.Admissible (.accept answer)))
  | .engine (.client fd ready recv send) =>
      inferInstanceAs (Decidable (s.control.Admissible (.client fd ready recv send)))
  | .parent _ _ _ => inferInstanceAs (Decidable (_ ∧ _))

/-- The process an event is for has not stopped. -/
def State.Alive (s : State W) : Event → Prop
  | .engine _ => s.control.engine.running = true
  | .parent _ _ _ => s.parent.status = .running

instance (s : State W) : (e : Event) → Decidable (s.Alive e)
  | .engine _ => inferInstanceAs (Decidable (s.control.engine.running = true))
  | .parent _ _ _ => inferInstanceAs (Decidable (s.parent.status = .running))

/-- One step of the whole. -/
def Step (s : State W) (e : Event) (s' : State W) : Prop :=
  s.Alive e ∧ s.Admissible e ∧ s' = s.step env e

end System

end Ifconfigd.Pipeline
