import Ifconfigd.Pipeline

/-!
# From the engine's queue to the parent's actions

Over every interleaving of the engine, its clients and the parent, the parent treats the
requests the engine queued, each once and in their order. While no call on the pipe
fails, neither process stops because of the other, and a request that is not treated yet
always has an event that moves it on.

The invariant is an account of bytes: what the parent has in its buffer, what is in the
pipe and what is in the engine's queue are, one after the other, the messages that are
not treated yet.
-/

namespace Ifconfigd.Pipeline

open CLib Control
open Selection (forwarded)

section System

variable {W : Type} (env : Parent.Callees W)

/-! ## What an event does to the requests -/

/-- The messages for the parent that the engine has queued so far. -/
def State.sent (s : State W) : List Imsg :=
  s.control.queued.map fun p => forwarded s.control.engine.parent.ibuf.pid p.2

/-- What an event of the engine does: it queues some requests, then writes some bytes. -/
structure Moves (sys : System) (bytes : List Byte) (sys' : System) : Prop where
  moves : ∃ more iev, sys'.queued = sys.queued ++ more ∧ (∀ p ∈ more, Short p.2) ∧
    Queues sys.engine.parent (more.map Prod.snd) iev ∧ Writes iev bytes sys'.engine.parent

theorem Moves.of_writes {sys sys' : System} {bytes : List Byte} (hqueued : sys'.queued = sys.queued)
    (h : Writes sys.engine.parent bytes sys'.engine.parent) : Moves sys bytes sys' :=
  ⟨[], sys.engine.parent, by rw [hqueued, List.append_nil], List.forall_mem_nil _, .nil _, h⟩

theorem moves_apply (sys : System) (k : Nat) (chunk : List Byte) {d : Dispatched}
    (h : Enqueues sys.engine d) : Moves sys [] (sys.apply k chunk d) := by
  refine ⟨d.queued.map fun req => (k, req), d.engine.parent, rfl, ?_, ?_, .refl _⟩
  · intro p hp
    obtain ⟨req, hreq, rfl⟩ := List.mem_map.mp hp
    exact h.short req hreq
  · simpa using h.queues

theorem moves_step (s : State W) (e : Control.Event) :
    Moves s.control (s.puts e) (s.control.step e) := by
  have hsame : Moves s.control [] s.control := .of_writes rfl (.refl _)
  cases e with
  | accept answer =>
      cases answer with
      | none => exact hsame
      | some fd => exact .of_writes rfl (.refl _)
  | client fd ready recv send =>
      change Moves s.control [] _
      rw [System.step]
      split
      · next c k _ _ =>
          dsimp only
          split_ifs
          · exact moves_apply _ k _ (enqueues_controlDispatchImsg _ _ _ _ _)
          · exact hsame
      · exact hsame
  | parent ready recv send =>
      change Moves s.control (engineWrites _ (s.control.engine.parent.reported ready) send) _
      rw [System.step]
      split_ifs with hevent
      · exact .of_writes rfl (writes_ifconfigdDispatchParent _ _ _ _)
      · obtain ⟨hread, hwrite⟩ := not_or.mp hevent
        have hnone : engineWrites s.control.engine (s.control.engine.parent.reported ready) send =
            [] := by
          unfold engineWrites
          rw [if_neg hread]
          cases send with
          | bytes n => exact if_neg hwrite
          | closed => rfl
          | again => rfl
          | failed => rfl
        rw [hnone]
        exact hsame

/-- What holds of the engine's end of the pipe. -/
structure EngineEnd (sys : System) : Prop where
  armed : Armed sys.engine.parent
  filled : ∀ b ∈ sys.engine.parent.ibuf.w, b ≠ []
  short : ∀ p ∈ sys.queued, Short p.2

theorem frameOf_ne_nil (pid : UInt32) (req : Request) : frameOf pid req ≠ [] := by
  apply List.ne_nil_of_length_pos
  rw [frameOf, Imsg.encode_length]
  exact Nat.lt_of_lt_of_le (by decide) (Nat.le_add_right _ _)

theorem Moves.engineEnd {sys sys' : System} {bytes : List Byte} (h : Moves sys bytes sys')
    (hend : EngineEnd sys) : EngineEnd sys' := by
  obtain ⟨more, iev, hqueued, hshort, hqueues, hwrites⟩ := h
  refine ⟨hwrites.armed (hqueues.armed hend.armed), hwrites.filled ?_, ?_⟩
  · intro b hb
    rw [hqueues.ibuf] at hb
    rcases List.mem_append.mp hb with hb | hb
    · exact hend.filled b hb
    · obtain ⟨req, -, rfl⟩ := List.mem_map.mp hb
      exact frameOf_ne_nil _ req
  · intro p hp
    rw [hqueued] at hp
    rcases List.mem_append.mp hp with hp | hp
    · exact hend.short p hp
    · exact hshort p hp

/-- An event of the engine adds some messages to those sent, and their bytes to the bytes
on their way. -/
theorem Moves.sent (s s' : State W) {bytes : List Byte} (h : Moves s.control bytes s'.control) :
    ∃ new, s'.sent = s.sent ++ new ∧
      bytes ++ s'.control.engine.parent.ibuf.w.flatten =
        s.control.engine.parent.ibuf.w.flatten ++ Imsg.wire new := by
  obtain ⟨more, iev, hqueued, -, hqueues, hwrites⟩ := h
  have hpid : s'.control.engine.parent.ibuf.pid = s.control.engine.parent.ibuf.pid := by
    rw [hwrites.pid, hqueues.ibuf]
  refine ⟨more.map fun p => forwarded s.control.engine.parent.ibuf.pid p.2, ?_, ?_⟩
  · rw [State.sent, State.sent, hqueued, hpid, List.map_append]
  · rw [hwrites.queue, hqueues.ibuf]
    simp [Imsg.wire, frameOf, Function.comp_def]

/-! ## What the parent makes of the bytes -/

/-- The parent's treatment of a list of messages, from its start. -/
def treat (w : W) (ms : List Imsg) : Except (List (Nat × Parent.Action)) (Parent.Progress W) :=
  ms.foldlM (Parent.handleImsg env) ⟨w, 0, []⟩

/-- The parent after a read of `chunk`, when the messages `ms` are complete with it. -/
def afterRead (proc : Parent.Process W) (rest : List Byte) :
    Except (List (Nat × Parent.Action)) (Parent.Progress W) → Parent.Process W
  | .error actions => { proc with status := .busy, progress := { proc.progress with actions } }
  | .ok progress =>
      ⟨Imsgev.imsgEventAdd { proc.iev with ibuf := { proc.iev.ibuf with r := rest } }, .running,
        progress⟩

theorem mainDispatch_chunk (proc : Parent.Process W) {recv : Recv} {chunk rest : List Byte}
    (hrecv : Parent.Carries recv chunk) {ms : List Imsg}
    (hdrain : Framing.drain Imsg.format (proc.iev.ibuf.r ++ chunk) =
      (ms.map Imsg.encode, some rest)) (send : Send) :
    Parent.mainDispatchIfconfigde env proc ⟨true, false⟩ recv send =
      afterRead proc rest (ms.foldlM (Parent.handleImsg env) proc.progress) := by
  have hms : (ms.map Imsg.encode).map Imsg.ofFrame = ms := by simp [Function.comp_def]
  change Parent.mainDispatchIfconfigde env proc ⟨true, false⟩ recv .again = _
  rw [Parent.mainDispatch_read env proc hrecv, hdrain, hms]
  cases ms.foldlM (Parent.handleImsg env) proc.progress <;> rfl

theorem mainDispatch_closed (proc : Parent.Process W) (send : Send)
    (hrest : Framing.next Imsg.format proc.iev.ibuf.r = .incomplete) :
    Parent.mainDispatchIfconfigde env proc ⟨true, false⟩ .closed send =
      { proc with status := .exiting } := by
  unfold Parent.mainDispatchIfconfigde
  simp only [↓reduceIte, Bool.false_eq_true, Imsgbuf.imsgRead, Framing.loop_eq_foldlM,
    Framing.drain_of_incomplete hrest]
  rfl

theorem mainDispatch_failed (proc : Parent.Process W) (send : Send) :
    Parent.mainDispatchIfconfigde env proc ⟨true, false⟩ .failed send =
      { proc with status := .fatal } := rfl

/-- The bytes a read takes from the front of the pipe. -/
theorem carries_of_offers {iev : Imsgev} {recv : Recv} {pipe : List Byte} {closed : Prop}
    (hfits : iev.ibuf.Fits recv) (h : Offers pipe closed recv) :
    recv = .failed ∨ (recv = .closed ∧ pipe = [] ∧ closed) ∨
      ∃ more, Parent.Carries recv (readBytes ⟨true, false⟩ recv) ∧
        pipe = readBytes ⟨true, false⟩ recv ++ more := by
  cases recv with
  | bytes b =>
      obtain ⟨more, hmore⟩ := h
      exact .inr (.inr ⟨more, .bytes hfits.1, hmore.symm⟩)
  | closed => exact .inr (.inl ⟨rfl, h⟩)
  | again => exact .inr (.inr ⟨pipe, .again, rfl⟩)
  | failed => exact .inl rfl

/-! ## The invariant -/

/-- The messages sent are the ones the parent has treated and those whose bytes are on
their way: in the parent's buffer, in the pipe and in the engine's queue. -/
structure OnTheirWay (w : W) (s : State W) (done left : List Imsg) : Prop where
  sent : s.sent = done ++ left
  actions : s.parent.progress.actions = Parent.actionsOf (treat env w done)
  progress : s.parent.status = .running → treat env w done = .ok s.parent.progress
  rest : s.parent.status = .running →
    Framing.next Imsg.format s.parent.iev.ibuf.r = .incomplete
  bytes : s.parent.status = .running →
    s.parent.iev.ibuf.r ++ s.toParent ++ s.control.engine.parent.ibuf.w.flatten = Imsg.wire left

structure Delivery (w : W) (s : State W) : Prop where
  engineEnd : EngineEnd s.control
  silent : s.toEngine = []
  idle : s.parent.iev.ibuf.w = []
  waits : s.parent.iev.events = ⟨true, false⟩
  messages : ∃ done left, OnTheirWay env w s done left

variable {env} {w : W} {s s' : State W}

theorem Delivery.reported (h : Delivery env w s) (ready : Events) :
    s.parent.iev.reported ready = ⟨ready.read, false⟩ := by
  simp [Imsgev.reported, h.waits]

theorem Delivery.wellFormed (h : Delivery env w s) : ∀ m ∈ s.sent, m.WellFormed := by
  intro m hm
  obtain ⟨p, hp, rfl⟩ := List.mem_map.mp hm
  exact wellFormed_forwarded (h.engineEnd.short p hp)

theorem Delivery.init (engineFd parentFd : Nat) (enginePid parentPid : UInt32) (w : W) :
    Delivery env w (State.init engineFd parentFd enginePid parentPid w) where
  engineEnd := ⟨rfl, List.forall_mem_nil _, List.forall_mem_nil _⟩
  silent := rfl
  idle := rfl
  waits := rfl
  messages := ⟨[], [], rfl, rfl, fun _ => rfl, fun _ => rfl, fun _ => rfl⟩

/-- An event of the engine. -/
theorem Delivery.engine (h : Delivery env w s) (e : Control.Event) :
    Delivery env w (s.step env (.engine e)) := by
  have hmoves := moves_step s e
  obtain ⟨done, left, hway⟩ := h.messages
  obtain ⟨new, hsent, hbytes⟩ := Moves.sent s (s.step env (.engine e)) hmoves
  refine ⟨hmoves.engineEnd h.engineEnd, ?_, h.idle, h.waits, done, left ++ new, ?_⟩
  · change s.toEngine.drop _ = []
    rw [h.silent, List.drop_nil]
  · refine ⟨?_, hway.actions, hway.progress, hway.rest, fun hrunning => ?_⟩
    · rw [hsent, hway.sent, List.append_assoc]
    · let queue := (s.control.step e).engine.parent.ibuf.w.flatten
      calc s.parent.iev.ibuf.r ++ (s.toParent ++ s.puts e) ++ queue
          = s.parent.iev.ibuf.r ++ s.toParent ++ (s.puts e ++ queue) := by
            simp only [List.append_assoc]
        _ = s.parent.iev.ibuf.r ++ s.toParent ++ (s.control.engine.parent.ibuf.w.flatten ++
              Imsg.wire new) := congrArg _ hbytes
        _ = Imsg.wire left ++ Imsg.wire new := by
            rw [← List.append_assoc, hway.bytes hrunning]
        _ = Imsg.wire (left ++ new) := by simp [Imsg.wire]

/-- What a call of the parent's handler can do: nothing, as nothing is ready; or it reads
and finds an error, the end of the pipe or some complete messages. -/
inductive ParentEffect (env : Parent.Callees W) (w : W) (s : State W) (ready : Events)
    (recv : Recv) : State W → Prop
  | idle (hready : ready.read = false) : ParentEffect env w s ready recv s
  | failed (hrecv : recv = .failed) :
      ParentEffect env w s ready recv { s with parent := { s.parent with status := .fatal } }
  | closed (hengine : s.control.engine.running = false) :
      ParentEffect env w s ready recv { s with parent := { s.parent with status := .exiting } }
  | read {done ms left : List Imsg} {chunk more rest : List Byte}
      (hway : OnTheirWay env w s done (ms ++ left)) (hpipe : s.toParent = chunk ++ more)
      (hchunk : chunk = readBytes ⟨true, false⟩ recv)
      (hnext : Framing.next Imsg.format rest = .incomplete)
      (hbytes : rest ++ more ++ s.control.engine.parent.ibuf.w.flatten = Imsg.wire left) :
      ParentEffect env w s ready recv
        { s with
          toParent := more
          parent := afterRead s.parent rest (treat env w (done ++ ms)) }

theorem Delivery.parent_effect (h : Delivery env w s) (hrunning : s.parent.status = .running)
    {ready : Events} {recv : Recv} {send : Send}
    (hadm : s.Admissible (.parent ready recv send)) :
    ParentEffect env w s ready recv (s.step env (.parent ready recv send)) := by
  obtain ⟨done, left, hway⟩ := h.messages
  cases hready : ready.read with
  | false =>
      have hsame : s.step env (.parent ready recv send) = s := by
        simp [State.step, h.reported, hready]
      rw [hsame]
      exact .idle hready
  | true =>
  have hstep : s.step env (.parent ready recv send) =
      { s with
        toParent := s.toParent.drop (readBytes ⟨true, false⟩ recv).length
        parent := Parent.mainDispatchIfconfigde env s.parent ⟨true, false⟩ recv send } := by
    have hwritten : writtenBytes s.parent.iev ⟨true, false⟩ send = [] := by cases send <;> rfl
    rw [State.step, h.reported, hready]
    simp [hwritten]
  rw [hstep]
  rcases carries_of_offers hadm.1 hadm.2.1 with rfl | ⟨rfl, -, hclosed⟩ | ⟨more, hcarries, hpipe⟩
  · exact .failed rfl
  · rw [mainDispatch_closed env s.parent send (hway.rest hrunning)]
    exact .closed hclosed
  · generalize hchunk : readBytes ⟨true, false⟩ recv = chunk at hcarries hpipe ⊢
    -- Cut the bytes on their way behind the chunk: some messages are complete by then.
    have hcut : (s.parent.iev.ibuf.r ++ chunk) ++
        (more ++ s.control.engine.parent.ibuf.w.flatten) = (left.map Imsg.encode).flatten := by
      have hbytes := hway.bytes hrunning
      rw [hpipe] at hbytes
      simpa [Imsg.wire, List.append_assoc] using hbytes
    have hframes : ∀ body ∈ left.map Imsg.encode, Framing.IsFrame Imsg.format body := by
      intro body hbody
      obtain ⟨m, hm, rfl⟩ := List.mem_map.mp hbody
      have hmem : m ∈ s.sent := by rw [hway.sent]; exact List.mem_append_right done hm
      exact (h.wellFormed m hmem).isFrame
    obtain ⟨doneFrames, leftFrames, rest, hsplit, hdrain, hrest⟩ :=
      Framing.drain_of_append_eq_flatten hframes hcut
    obtain ⟨ms, left, rfl, rfl, rfl⟩ := List.map_eq_append_iff.mp hsplit
    have htreat : ms.foldlM (Parent.handleImsg env) s.parent.progress =
        treat env w (done ++ ms) := by
      have hdone := hway.progress hrunning
      unfold treat at hdone ⊢
      rw [List.foldlM_append, hdone]
      rfl
    have hmore : s.toParent.drop chunk.length = more := by rw [hpipe, List.drop_left]
    rw [mainDispatch_chunk env s.parent hcarries hdrain, htreat, hmore]
    refine .read hway hpipe hchunk.symm ?_ ?_
    · exact Framing.next_of_drain_rest (congrArg Prod.snd hdrain)
    · rw [List.append_assoc, hrest, Imsg.wire]

/-- A parent that stops has treated what it has treated. -/
theorem Delivery.stop (h : Delivery env w s) {status : Parent.Status}
    (hstatus : status ≠ .running) :
    Delivery env w { s with parent := { s.parent with status } } := by
  obtain ⟨done, left, hway⟩ := h.messages
  exact ⟨h.engineEnd, h.silent, h.idle, h.waits, done, left, hway.sent, hway.actions,
    fun h => absurd h hstatus, fun h => absurd h hstatus, fun h => absurd h hstatus⟩

/-- The parent has read `ms`, and `rest` of the messages after them. -/
theorem Delivery.afterRead (h : Delivery env w s) {done ms left : List Imsg}
    {more rest : List Byte} (hway : OnTheirWay env w s done (ms ++ left))
    (hnext : Framing.next Imsg.format rest = .incomplete)
    (hbytes : rest ++ more ++ s.control.engine.parent.ibuf.w.flatten = Imsg.wire left) :
    Delivery env w
      { s with
        toParent := more
        parent := Pipeline.afterRead s.parent rest (treat env w (done ++ ms)) } := by
  have hsent : s.sent = (done ++ ms) ++ left := by rw [hway.sent, List.append_assoc]
  cases htreat : treat env w (done ++ ms) with
  | error actions =>
      refine ⟨h.engineEnd, h.silent, h.idle, h.waits, done ++ ms, left, hsent, ?_, ?_, ?_, ?_⟩
      · rw [htreat]
        rfl
      all_goals
        intro hstatus
        cases hstatus
  | ok progress =>
      have hidle : Imsgev.imsgEventAdd
          { s.parent.iev with ibuf := { s.parent.iev.ibuf with r := rest } } =
          { s.parent.iev with ibuf := { s.parent.iev.ibuf with r := rest } } := by
        simp [Imsgev.imsgEventAdd, h.idle, h.waits]
      refine ⟨h.engineEnd, h.silent, h.idle, ?_, done ++ ms, left, hsent, ?_, fun _ => htreat,
        fun _ => hnext, fun _ => hbytes⟩
      · change (Imsgev.imsgEventAdd _).events = _
        rw [hidle]
        exact h.waits
      · rw [htreat]
        rfl

variable {ready : Events} {recv : Recv}

theorem ParentEffect.delivery (h : Delivery env w s)
    (heffect : ParentEffect env w s ready recv s') : Delivery env w s' := by
  cases heffect with
  | idle => exact h
  | failed => exact h.stop (by decide)
  | closed => exact h.stop (by decide)
  | read hway _ _ hnext hbytes => exact h.afterRead hway hnext hbytes

theorem Delivery.step {e : Event} (h : Delivery env w s) (hstep : Step env s e s') :
    Delivery env w s' := by
  obtain ⟨halive, hadm, rfl⟩ := hstep
  cases e with
  | engine e => exact h.engine e
  | parent ready recv send => exact (h.parent_effect halive hadm).delivery h

theorem Delivery.run {engineFd parentFd : Nat} {enginePid parentPid : UInt32} {es : List Event}
    (hrun : Machine.Run (Step env) (.init engineFd parentFd enginePid parentPid w) es s) :
    Delivery env w s :=
  hrun.invariant (fun _ _ _ h hstep => h.step hstep) (.init _ _ _ _ w)

/-! ## No request is lost, repeated or overtaken -/

theorem count_handleImsg {p p' : Parent.Progress W} {m : Imsg}
    (h : Parent.handleImsg env p m = .ok p') : p'.count = p.count + 1 := by
  obtain ⟨more, -, herror | ⟨w', hok⟩⟩ := Parent.handleImsg_grows env p m
  · rw [herror] at h
    cases h
  · rw [hok] at h
    cases h
    rfl

theorem count_of_foldlM {ms : List Imsg} {p p' : Parent.Progress W}
    (h : ms.foldlM (Parent.handleImsg env) p = .ok p') : p'.count = p.count + ms.length := by
  induction ms generalizing p with
  | nil =>
      cases h
      rfl
  | cons m ms ih =>
      rw [List.foldlM_cons] at h
      cases hm : Parent.handleImsg env p m with
      | error actions =>
          rw [hm] at h
          cases h
      | ok q =>
          rw [hm] at h
          rw [ih h, count_handleImsg hm, List.length_cons]
          omega

/-- A client connects and asks for the monitor, and ten bytes of its request have come
through the pipe. -/
def monitorHalfway : List Event :=
  let request : Imsg := ⟨⟨ImsgType.ifconfigdMonitor.code, 16, 0, 0, 7⟩, []⟩
  let forwardedRequest : Imsg := ⟨⟨ImsgType.ifconfigdMonitor.code, 16, 0, 0, 9⟩, []⟩
  [.engine (.accept (some 5)), .engine (.client 5 ⟨true, false⟩ (.bytes request.encode) .again),
    .engine (.parent ⟨false, true⟩ .again (.bytes 10)),
    .parent ⟨true, false⟩ (.bytes (forwardedRequest.encode.take 10)) .again]

/-- A parent whose actions return. -/
def returning : Parent.Callees Unit := ⟨fun _ w => some w, fun _ _ => 0⟩

theorem snoc_step {es : List Event} (hrun : Machine.Run (Step env) s es s') (e : Event)
    (hok : s'.Alive e ∧ s'.Admissible e) :
    Machine.Run (Step env) s (es ++ [e]) (s'.step env e) :=
  hrun.snoc ⟨hok.1, hok.2, rfl⟩

theorem run_monitorHalfway :
    Machine.Run (Step returning) (.init 4 3 9 8 ()) monitorHalfway
      (monitorHalfway.foldl (State.step returning) (.init 4 3 9 8 ())) := by
  refine snoc_step (snoc_step (snoc_step (snoc_step (.nil _) _ ?_) _ ?_) _ ?_) _ ?_
  all_goals decide +kernel

/-- A call on the pipe that fails. -/
def Event.Fails : Event → Prop
  | .engine (.parent _ recv send) => recv = .failed ∨ send = .failed
  | .parent _ recv send => recv = .failed ∨ send = .failed
  | .engine _ => False

/-- The engine's handler for the pipe, as long as the parent has not written or closed its
end. -/
theorem ifconfigdDispatchParent_running {e : Engine} {event : Events} {recv : Recv} {send : Send}
    (hread : event.read = false) (hwrite : event.write = true) (hsend : send ≠ .failed) :
    (ifconfigdDispatchParent e event recv send).running = e.running := by
  obtain ⟨_, _⟩ := event
  cases hread
  cases hwrite
  unfold ifconfigdDispatchParent
  dsimp only
  rw [if_neg fun hfailed => hsend (eq_failed_of_msgbufWrite hfailed)]

theorem Delivery.engine_running (h : Delivery env w s) {e : Control.Event}
    (hopen : s.ParentOpen) (hadm : s.Admissible (.engine e))
    (hsend : ∀ ready recv send, e = .parent ready recv send → send ≠ .failed) :
    (s.control.step e).engine.running = s.control.engine.running := by
  cases e with
  | accept answer => cases answer <;> rfl
  | client fd ready recv send =>
      rw [System.step]
      split
      · dsimp only
        split_ifs
        · exact (enqueues_controlDispatchImsg _ _ _ _ _).running
        · rfl
      · rfl
  | parent ready recv send =>
      -- The parent never writes, so there is nothing to read.
      have hready : ready.read = false := by
        rw [Bool.eq_false_iff]
        intro hready
        rcases hadm.2.1 hready with hdata | hclosed
        · exact hdata h.silent
        · exact hclosed hopen
      have hread : (s.control.engine.parent.reported ready).read = false := by
        simp [Imsgev.reported, hready]
      rw [System.step]
      split_ifs with hevent
      · have hwrite : (s.control.engine.parent.reported ready).write = true :=
          hevent.resolve_left (by rw [hread]; exact Bool.false_ne_true)
        exact ifconfigdDispatchParent_running hread hwrite (hsend ready recv send rfl)
      · rfl

theorem afterRead_open (proc : Parent.Process W) (rest : List Byte)
    (r : Except (List (Nat × Parent.Action)) (Parent.Progress W)) :
    (afterRead proc rest r).status = .running ∨ (afterRead proc rest r).status = .busy := by
  cases r with
  | error actions => exact .inr rfl
  | ok progress => exact .inl rfl

theorem ParentEffect.control (heffect : ParentEffect env w s ready recv s') :
    s'.control = s.control := by
  cases heffect <;> rfl

theorem ParentEffect.parentOpen (heffect : ParentEffect env w s ready recv s')
    (hopen : s.ParentOpen) (hengine : s.control.engine.running = true) (hrecv : recv ≠ .failed) :
    s'.ParentOpen := by
  cases heffect with
  | idle => exact hopen
  | failed hfailed => exact absurd hfailed hrecv
  | closed hstopped =>
      rw [hengine] at hstopped
      cases hstopped
  | read => exact afterRead_open _ _ _

/-- The bytes still to be moved; those in the engine's queue have two moves before them. -/
def State.outstanding (s : State W) : Nat :=
  2 * s.control.engine.parent.ibuf.w.flatten.length + s.toParent.length

/-- A step that moves bytes towards the parent and queues nothing new. -/
def Advances (env : Parent.Callees W) (s : State W) (e : Event) (s' : State W) : Prop :=
  Step env s e s' ∧ s'.control.queued = s.control.queued ∧ s'.outstanding < s.outstanding

/-- An event of the engine that queues nothing moves the bytes it writes. -/
theorem outstanding_engine (env : Parent.Callees W) (s : State W) {e : Control.Event}
    (hqueued : (s.control.step e).queued = s.control.queued) :
    (s.step env (.engine e)).outstanding + (s.puts e).length = s.outstanding := by
  obtain ⟨more, iev, hmore, -, hqueues, hwrites⟩ := moves_step s e
  have hnone : more = [] := by
    rw [hqueued] at hmore
    exact List.self_eq_append_right.mp hmore
  have hbytes := congrArg List.length hwrites.queue
  rw [hqueues.ibuf, hnone] at hbytes
  simp only [List.map_nil, List.append_nil, List.length_append] at hbytes
  simp only [State.outstanding, State.step, List.length_append]
  omega

/-- The engine's queue can be written to the pipe at once, if the pipe has the room. -/
theorem Delivery.writes_queue (h : Delivery env w s) (hengine : s.control.engine.running = true)
    (hqueue : s.control.engine.parent.ibuf.w ≠ []) : ∃ e s', Advances env s e s' := by
  let queue := s.control.engine.parent.ibuf.w.flatten
  let e : Control.Event := .parent ⟨false, true⟩ .again (.bytes queue.length)
  have hpos : 0 < queue.length := by
    obtain ⟨b, bs, hcons⟩ := List.exists_cons_of_ne_nil hqueue
    have hb : b ≠ [] := h.engineEnd.filled b (by rw [hcons]; exact List.mem_cons_self)
    have hlen : 0 < b.length := List.length_pos_iff.mpr hb
    simp only [queue, hcons, List.flatten_cons, List.length_append]
    omega
  have hreported : s.control.engine.parent.reported ⟨false, true⟩ = ⟨false, true⟩ := by
    have harmed := h.engineEnd.armed
    unfold Armed at harmed
    simp [Imsgev.reported, harmed, hqueue]
  have hputs : s.puts e = queue := by
    simp only [State.puts, e, hreported, engineWrites, writtenBytes]
    exact List.take_length
  have hqueued : (s.control.step e).queued = s.control.queued := by
    obtain ⟨engine, -, hstep⟩ := step_parent_cases s.control ⟨false, true⟩ .again
      (.bytes queue.length)
    rw [hstep]
  have hadm : s.Admissible (.engine e) :=
    ⟨trivial, fun hread => absurd hread Bool.false_ne_true, trivial, hpos, le_rfl⟩
  have hmoved := outstanding_engine env s hqueued
  rw [hputs] at hmoved
  exact ⟨.engine e, _, ⟨hengine, hadm, rfl⟩, hqueued, by omega⟩

/-- What is left of a read is shorter than the longest message, so that the buffer has
room. -/
theorem length_lt_of_incomplete {buf : List Byte}
    (h : Framing.next Imsg.format buf = .incomplete) : buf.length < Imsg.maxImsgSize :=
  Framing.length_of_incomplete h

/-- Bytes in the pipe can be read. -/
theorem Delivery.reads_pipe (h : Delivery env w s) (hengine : s.control.engine.running = true)
    (hparent : s.parent.status = .running) (hpipe : s.toParent ≠ []) :
    ∃ e s', Advances env s e s' := by
  obtain ⟨done, left, hway⟩ := h.messages
  have hroom : s.parent.iev.ibuf.r.length < Imsg.maxImsgSize :=
    length_lt_of_incomplete (hway.rest hparent)
  let chunk := s.toParent.take (Imsg.readSize - s.parent.iev.ibuf.r.length)
  have hpos : 0 < s.toParent.length := List.length_pos_iff.mpr hpipe
  have hlen : chunk.length = min (Imsg.readSize - s.parent.iev.ibuf.r.length)
      s.toParent.length := List.length_take
  simp only [Imsg.readSize, Imsg.maxImsgSize] at hroom hlen
  have hne : chunk ≠ [] := List.ne_nil_of_length_pos (by omega)
  have hfits : s.parent.iev.ibuf.Fits (.bytes chunk) := by
    refine ⟨hne, ?_⟩
    simp only [Imsg.readSize]
    omega
  have hadm : s.Admissible (.parent ⟨true, false⟩ (.bytes chunk) .again) :=
    ⟨hfits, List.take_prefix _ _, trivial⟩
  have heffect := h.parent_effect hparent hadm
  refine ⟨.parent ⟨true, false⟩ (.bytes chunk) .again, _, ⟨hparent, hadm, rfl⟩, ?_, ?_⟩
  · rw [heffect.control]
  · generalize s.step env _ = s' at heffect
    cases heffect with
    | idle hready => cases hready
    | failed hrecv => cases hrecv
    | closed hstopped =>
        rw [hengine] at hstopped
        cases hstopped
    | @read done ms left chunk' more rest _ hsplit hchunk =>
        have hsame : chunk' = chunk := hchunk
        have hshorter := congrArg List.length hsplit
        rw [hsame, List.length_append] at hshorter
        have hchunkpos : 0 < chunk.length := List.length_pos_iff.mpr hne
        simp only [State.outstanding]
        omega

/-- When nothing can be moved, nothing is on its way. -/
theorem Delivery.nothing_left (h : Delivery env w s) (hengine : s.control.engine.running = true)
    (hparent : s.parent.status = .running) (hstuck : ∀ e s', ¬Advances env s e s') :
    s.parent.progress.count = s.control.queued.length := by
  have hqueue : s.control.engine.parent.ibuf.w = [] := by
    by_contra hne
    obtain ⟨e, s', hmove⟩ := h.writes_queue hengine hne
    exact hstuck e s' hmove
  have hpipe : s.toParent = [] := by
    by_contra hne
    obtain ⟨e, s', hmove⟩ := h.reads_pipe hengine hparent hne
    exact hstuck e s' hmove
  obtain ⟨done, left, hway⟩ := h.messages
  have hbytes := hway.bytes hparent
  rw [hqueue, hpipe, List.append_nil, List.flatten_nil, List.append_nil] at hbytes
  have hleft : left = [] := by
    by_contra hne
    obtain ⟨m, ms, rfl⟩ := List.exists_cons_of_ne_nil hne
    have hm : m.WellFormed := h.wellFormed m (by rw [hway.sent]; simp)
    have hframe := Framing.next_append_frame hm.isFrame (Imsg.wire ms)
    have hnext := hway.rest hparent
    rw [hbytes, Imsg.wire, List.map_cons, List.flatten_cons] at hnext
    rw [Imsg.wire, hnext] at hframe
    cases hframe
  have hcount := count_of_foldlM (hway.progress hparent)
  have hsent := congrArg List.length hway.sent
  rw [State.sent, List.length_map, hleft, List.append_nil] at hsent
  rw [hcount, hsent, Nat.zero_add]

/-- Moving bytes stops neither process: it takes a write or a read that succeeds. -/
theorem Delivery.advances_running (h : Delivery env w s) {e : Event}
    (hmove : Advances env s e s') (hengine : s.control.engine.running = true)
    (hopen : s.ParentOpen) : s'.control.engine.running = true ∧ s'.ParentOpen := by
  obtain ⟨⟨halive, hadm, rfl⟩, hqueued, hless⟩ := hmove
  cases e with
  | engine e =>
      have hmoved := outstanding_engine env s hqueued
      have hputs : s.puts e ≠ [] := List.ne_nil_of_length_pos (by omega)
      have hsend : ∀ ready recv send, e = .parent ready recv send → send ≠ .failed := by
        rintro ready recv send rfl rfl
        exact hputs (ite_self [])
      exact ⟨(h.engine_running hopen hadm hsend).trans hengine, hopen⟩
  | parent ready recv send =>
      have heffect := h.parent_effect halive hadm
      rw [heffect.control]
      refine ⟨hengine, ?_⟩
      generalize s.step env _ = s' at heffect hless
      cases heffect with
      | idle => exact hopen
      | failed => exact absurd hless (lt_irrefl _)
      | closed => exact absurd hless (lt_irrefl _)
      | read => exact afterRead_open _ _ _

theorem Advances.step {e : Event} (h : Advances env s e s') : Step env s e s' := h.1

/-- Moving bytes from a state that keeps the invariant. -/
theorem Delivery.advances (h : Delivery env w s) (hengine : s.control.engine.running = true)
    (hopen : s.ParentOpen) {es : List Event} {t : State W}
    (hmoves : Machine.Run (Advances env) s es t) :
    Delivery env w t ∧ t.control.engine.running = true ∧ t.ParentOpen ∧
      t.control.queued = s.control.queued ∧ es.length + t.outstanding ≤ s.outstanding := by
  induction hmoves with
  | nil => exact ⟨h, hengine, hopen, rfl, by simp⟩
  | snoc _ hmove ih =>
      obtain ⟨ht, hengine, hopen, hqueued, hlength⟩ := ih
      obtain ⟨hengine', hopen'⟩ := ht.advances_running hmove hengine hopen
      refine ⟨ht.step hmove.step, hengine', hopen', hmove.2.1.trans hqueued, ?_⟩
      have hless := hmove.2.2
      rw [List.length_append, List.length_singleton]
      omega

/-- From every reachable state in which both processes run, bytes can be moved only so many
times. When no more can be moved, every request the engine has queued is treated, unless
the parent still is in an action for an earlier one. -/
theorem requests_delivered {engineFd parentFd : Nat} {enginePid parentPid : UInt32}
    {es : List Event}
    (hrun : Machine.Run (Step env) (.init engineFd parentFd enginePid parentPid w) es s)
    (hengine : s.control.engine.running = true) (hparent : s.parent.status = .running)
    {moves : List Event} {t : State W} (hmoves : Machine.Run (Advances env) s moves t) :
    moves.length ≤ s.outstanding ∧
      ((∀ e u, ¬Advances env t e u) →
        t.parent.status = .busy ∨ t.parent.progress.count = s.control.queued.length) := by
  obtain ⟨ht, hengine', hopen, hqueued, hlength⟩ :=
    (Delivery.run hrun).advances hengine (.inl hparent) hmoves
  refine ⟨by omega, fun hstuck => ?_⟩
  rcases hopen with hrunning | hbusy
  · exact .inr ((ht.nothing_left hengine' hrunning hstuck).trans (congrArg _ hqueued))
  · exact .inl hbusy

/-- The rest of the monitor's request goes through the pipe. -/
def monitorRest : List Event :=
  [.engine (.parent ⟨false, true⟩ .again (.bytes 6)),
    .parent ⟨true, false⟩
      (.bytes ((⟨⟨ImsgType.ifconfigdMonitor.code, 16, 0, 0, 9⟩, []⟩ : Imsg).encode.drop 10)) .again]

theorem snoc_advances {es : List Event} (hrun : Machine.Run (Advances env) s es s') (e : Event)
    (hok : (s'.Alive e ∧ s'.Admissible e) ∧ (s'.step env e).control.queued = s'.control.queued ∧
      (s'.step env e).outstanding < s'.outstanding) :
    Machine.Run (Advances env) s (es ++ [e]) (s'.step env e) :=
  hrun.snoc ⟨⟨hok.1.1, hok.1.2, rfl⟩, hok.2.1, hok.2.2⟩

theorem requests_delivered_monitor :
    ∃ s t, Machine.Run (Step returning) (.init 4 3 9 8 ()) monitorHalfway s ∧
      Machine.Run (Advances returning) s monitorRest t ∧ s.parent.progress.count = 0 ∧
      t.parent.progress.count = 1 := by
  let s := monitorHalfway.foldl (State.step returning) (.init 4 3 9 8 ())
  let t := monitorRest.foldl (State.step returning) s
  have hmoves : Machine.Run (Advances returning) s monitorRest t := by
    refine snoc_advances (snoc_advances (.nil s) _ ?_) _ ?_
    all_goals decide +kernel
  have hstuck : ∀ e u, ¬Advances returning t e u := by
    intro e u hmove
    have hnone : t.outstanding = 0 := by decide +kernel
    exact Nat.not_lt_zero _ (hnone ▸ hmove.2.2)
  have hdone := (requests_delivered run_monitorHalfway (by decide +kernel) (by decide +kernel)
    hmoves).2 hstuck
  refine ⟨s, t, run_monitorHalfway, hmoves, by decide +kernel, ?_⟩
  rcases hdone with hbusy | hcount
  · exact absurd hbusy (by decide +kernel)
  · exact hcount.trans (by decide +kernel)

/-! ## The buffers have room -/

theorem Step.control {e : Event} (h : Step env s e s') :
    s'.control = s.control ∨ ∃ e', Control.Step s.control e' s'.control := by
  obtain ⟨halive, hadm, rfl⟩ := h
  cases e with
  | engine e =>
      refine .inr ⟨e, halive, ?_, rfl⟩
      cases e with
      | accept answer => exact hadm
      | client fd ready recv send => exact hadm
      | parent ready recv send => exact hadm.1
  | parent ready recv send =>
      rw [State.step]
      split_ifs
      · exact .inl rfl
      · exact .inl rfl

theorem control_invariant {engineFd parentFd : Nat} {enginePid parentPid : UInt32}
    {es : List Event}
    (hrun : Machine.Run (Step env) (.init engineFd parentFd enginePid parentPid w) es s) :
    Control.Invariant s.control := by
  apply Machine.Run.invariant (P := fun s : State W => Control.Invariant s.control) _ hrun
  · exact init_invariant engineFd enginePid
  · intro s e s' h hstep
    rcases hstep.control with hsame | ⟨e', hcontrol⟩
    · rw [hsame]
      exact h
    · exact step_invariant _ e' _ h hcontrol

theorem tracks_of_mem {input : Nat → List Byte} {conns : List Imsgev} {table : List (Nat × Nat)}
    (h : List.Forall₂ (Tracks input) conns table) {c : Imsgev} (hc : c ∈ conns) :
    ∃ p ∈ table, Tracks input c p := by
  induction h with
  | nil => cases hc
  | @cons d p conns table hhead _ ih =>
      rcases List.mem_cons.mp hc with rfl | hc
      · exact ⟨p, List.mem_cons_self, hhead⟩
      · obtain ⟨q, hq, htracks⟩ := ih hc
        exact ⟨q, List.mem_cons_of_mem p hq, htracks⟩

/-- Between two events, the read buffer of every connection and of the parent holds less
than a message of the greatest size. So `recvmsg` is always given room, and an answer of
zero bytes means the end of the stream. -/
theorem buffers_have_room {engineFd parentFd : Nat} {enginePid parentPid : UInt32}
    {es : List Event}
    (hrun : Machine.Run (Step env) (.init engineFd parentFd enginePid parentPid w) es s) :
    (∀ c ∈ s.control.engine.conns, c.ibuf.r.length < Imsg.maxImsgSize) ∧
      (s.parent.status = .running → s.parent.iev.ibuf.r.length < Imsg.maxImsgSize) ∧
      Imsg.maxImsgSize < Imsg.readSize := by
  refine ⟨?_, ?_, by decide⟩
  · intro c hc
    obtain ⟨p, -, htracks⟩ := tracks_of_mem (control_invariant hrun).tracks hc
    exact length_lt_of_incomplete (Framing.next_of_drain_rest htracks.rest)
  · intro hrunning
    obtain ⟨done, left, hway⟩ := (Delivery.run hrun).messages
    exact length_lt_of_incomplete (hway.rest hrunning)

theorem buffers_have_room_monitor :
    ∃ s, Machine.Run (Step returning) (.init 4 3 9 8 ()) monitorHalfway s ∧
      s.parent.iev.ibuf.r.length = 10 ∧ s.parent.iev.ibuf.r.length < Imsg.maxImsgSize :=
  ⟨_, run_monitorHalfway, by decide +kernel,
    (buffers_have_room run_monitorHalfway).2.1 (by decide +kernel)⟩

end System

end Ifconfigd.Pipeline
