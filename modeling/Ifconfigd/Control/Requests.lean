import Ifconfigd.Control
import Mathlib.Data.List.Forall2

/-!
# Requests reach the parent once and in order

For every run of the control engine, whatever the order of the events and
however the clients' streams were cut into reads, the requests queued for the
parent on behalf of a connection are its completely received messages, filtered
to the ones the engine passes on. The list `ctl_conns` mirrors the descriptor
table, so an event on one descriptor leaves every other connection alone.
-/

namespace Ifconfigd.Control

open CLib

/-- The messages the engine is meant to pass on. -/
def Forwardable (m : Imsg) : Prop :=
  (m.hdr.type = ImsgType.useEthernet.code ∧ m.data.length = maxNetworkNameSize) ∨
    m.hdr.type = ImsgType.useNetworks.code ∨ m.hdr.type = ImsgType.useWireless.code ∨
    m.hdr.type = ImsgType.ifconfigdMonitor.code ∨ m.hdr.type = ImsgType.showWireless.code

instance (m : Imsg) : Decidable (Forwardable m) := inferInstanceAs (Decidable (_ ∨ _))

/-- The types of the requests queued for one connection, in order. -/
def System.queuedBy (sys : System) (k : Nat) : List UInt32 :=
  (sys.queued.filter fun p => p.1 = k).map fun p => p.2.type

/-- The requests a buffer holds, as the message loop queues them. -/
def requests (buf : List Byte) : List Request :=
  (Framing.drain Imsg.format buf).1.filterMap fun frame =>
    (controlForward (.ofFrame frame)).map Request.narrow

theorem requests_nil : requests [] = [] := by
  rw [requests, Framing.drain_of_incomplete rfl]
  rfl

/-! ## The switch -/

theorem controlForward_of_forwardable {m : Imsg} (hm : m.WellFormed) (h : Forwardable m) :
    ∃ req, controlForward m = some req ∧ req.narrow.type = m.hdr.type := by
  rcases h with ⟨htype, hlen⟩ | htype | htype | htype | htype
  · have hhdr : m.hdr.len.toNat = Imsg.headerSize + maxNetworkNameSize := by rw [hm.1, hlen]
    refine ⟨⟨m.hdr.type, m.data.take sizeofImsgData⟩, ?_, ?_⟩
    · simp [controlForward, htype, hhdr]
    · simp [Request.narrow, htype, ImsgType.code]
  all_goals
    refine ⟨⟨m.hdr.type, []⟩, ?_, ?_⟩
    · simp [controlForward, htype]
    · simp [Request.narrow, htype, ImsgType.code]

theorem controlForward_of_not_forwardable {m : Imsg} (hm : m.WellFormed)
    (h : ¬ Forwardable m) : controlForward m = none := by
  simp only [Forwardable, not_or, not_and] at h
  obtain ⟨hether, hnet, hwlan, hmonitor, hshow⟩ := h
  unfold controlForward
  split
  · rename_i htype
    have hlen := hether (ImsgType.ofCode_eq_some htype)
    rw [if_pos]
    intro hhdr
    exact hlen (Nat.add_left_cancel (hm.1.symm.trans hhdr))
  · rename_i htype
    exact absurd (ImsgType.ofCode_eq_some htype) hnet
  · rename_i htype
    exact absurd (ImsgType.ofCode_eq_some htype) hwlan
  · rename_i htype
    exact absurd (ImsgType.ofCode_eq_some htype) hmonitor
  · rename_i htype
    exact absurd (ImsgType.ofCode_eq_some htype) hshow
  · rfl

/-- The types queued for the messages of a list are those of its forwardable
members. -/
theorem filterMap_forward_types {ms : List Imsg} (hms : ∀ m ∈ ms, m.WellFormed) :
    (ms.filterMap fun m => (controlForward m).map Request.narrow).map Request.type =
      (ms.filter fun m => Forwardable m).map fun m => m.hdr.type := by
  induction ms with
  | nil => rfl
  | cons m ms ih =>
      have hm := hms m List.mem_cons_self
      have hrest := ih fun n hn => hms n (List.mem_cons_of_mem m hn)
      by_cases h : Forwardable m
      · obtain ⟨req, hreq, htype⟩ := controlForward_of_forwardable hm h
        simp [hreq, h, htype, hrest]
      · simp [controlForward_of_not_forwardable hm h, h, hrest]

theorem received_wellFormed {stream : List Byte} {m : Imsg} (h : m ∈ Imsg.received stream) :
    m.WellFormed := by
  obtain ⟨frame, hframe, rfl⟩ := List.mem_map.mp h
  exact Imsg.wellFormed_ofFrame (Framing.isFrame_of_mem_drain hframe)

theorem requests_types (buf : List Byte) :
    (requests buf).map Request.type =
      ((Imsg.received buf).filter fun m => Forwardable m).map fun m => m.hdr.type := by
  rw [← filterMap_forward_types fun m hm => received_wellFormed hm, requests, Imsg.received,
    List.filterMap_map]
  rfl

/-! ## The message loop -/

theorem foldlM_handleImsg (frames : List (List Byte)) (parent : Imsgev) (queued : List Request) :
    ∃ parent', frames.foldlM handleImsg (parent, queued) =
      .ok (parent', queued ++ frames.filterMap fun frame =>
        (controlForward (.ofFrame frame)).map Request.narrow) := by
  induction frames generalizing parent queued with
  | nil => exact ⟨parent, by simp; rfl⟩
  | cons frame frames ih =>
      cases hfwd : controlForward (.ofFrame frame) with
      | none =>
          obtain ⟨parent', h⟩ := ih parent queued
          refine ⟨parent', ?_⟩
          simpa [List.foldlM_cons, handleImsg, hfwd, List.filterMap_cons, bind, Except.bind]
            using h
      | some req =>
          obtain ⟨parent', h⟩ := ih (ifconfigdeImsgComposeParent parent req)
            (queued ++ [req.narrow])
          refine ⟨parent', ?_⟩
          simpa [List.foldlM_cons, handleImsg, hfwd, List.filterMap_cons, bind, Except.bind]
            using h

/-- The message loop queues exactly the requests of the buffer, and closes the
connection if a header in it is invalid. -/
theorem dispatchLoop_spec (e : Engine) (c : Imsgev) :
    ∃ parent, dispatchLoop e c =
      match (Framing.drain Imsg.format c.ibuf.r).2 with
      | none => controlClose { e with parent } c.ibuf.fd (requests c.ibuf.r)
      | some rest =>
          let c' := Imsgev.imsgEventAdd { c with ibuf := { c.ibuf with r := rest } }
          ⟨{ e with parent, conns := storeConn e.conns c' }, none, requests c.ibuf.r⟩ := by
  obtain ⟨parent, hfold⟩ := foldlM_handleImsg (Framing.drain Imsg.format c.ibuf.r).1 e.parent []
  refine ⟨parent, ?_⟩
  rw [List.nil_append] at hfold
  rw [dispatchLoop, Framing.loop_eq_foldlM, hfold]
  cases (Framing.drain Imsg.format c.ibuf.r).2 <;> rfl

/-! ## Connections and descriptors -/

/-- A connection belongs to a descriptor of the kernel's table: it waits for data
only, has nothing to write, and its buffer holds what is left of the bytes read so
far after the complete messages. -/
structure Tracks (input : Nat → List Byte) (c : Imsgev) (p : Nat × Nat) : Prop where
  fd : c.ibuf.fd = p.1
  events : c.events = ⟨true, false⟩
  idle : c.ibuf.w = []
  rest : (Framing.drain Imsg.format (input p.2)).2 = some c.ibuf.r

/-- The invariant of the engine's runs. -/
structure Invariant (sys : System) : Prop where
  tracks : List.Forall₂ (Tracks sys.input) sys.engine.conns sys.connected
  fds : (sys.connected.map Prod.fst).Nodup
  ids : (sys.connected.map Prod.snd).Nodup
  bound : ∀ p ∈ sys.connected, p.2 < sys.accepted
  fresh : ∀ k, sys.accepted ≤ k → sys.input k = []
  queued : ∀ k, sys.queuedBy k = (requests (sys.input k)).map Request.type

theorem connbyfd_fd {conns : List Imsgev} {fd : Nat} {c : Imsgev}
    (h : controlConnbyfd conns fd = some c) : c.ibuf.fd = fd := by
  simpa using List.find?_some h

/-- The list and the table find the two sides of the same connection. -/
theorem tracks_of_lookup {input : Nat → List Byte} {conns : List Imsgev}
    {table : List (Nat × Nat)} {fd k : Nat} {c : Imsgev}
    (h : List.Forall₂ (Tracks input) conns table) (hc : controlConnbyfd conns fd = some c)
    (hk : table.lookup fd = some k) : Tracks input c (fd, k) ∧ (fd, k) ∈ table := by
  induction h with
  | nil => simp [controlConnbyfd] at hc
  | @cons d p conns table hhead htail ih =>
      obtain ⟨pfd, pk⟩ := p
      have hfd : d.ibuf.fd = pfd := hhead.fd
      by_cases heq : pfd = fd
      · subst heq
        have hd : d = c := by simpa [controlConnbyfd, hfd] using hc
        have hpk : pk = k := by simpa using hk
        subst hd hpk
        exact ⟨hhead, List.mem_cons_self⟩
      · have hc' : controlConnbyfd conns fd = some c := by
          simpa [controlConnbyfd, hfd, heq] using hc
        have hk' : table.lookup fd = some k := by
          simpa [List.lookup_cons, show (fd == pfd) = false by simpa using Ne.symm heq] using hk
        obtain ⟨htracks, hmem⟩ := ih hc' hk'
        exact ⟨htracks, List.mem_cons_of_mem _ hmem⟩

theorem Tracks.of_ne {input : Nat → List Byte} {c : Imsgev} {p : Nat × Nat} {k : Nat}
    {stream : List Byte} (h : Tracks input c p) (hk : p.2 ≠ k) :
    Tracks (Function.update input k stream) c p :=
  ⟨h.fd, h.events, h.idle, by rw [Function.update_of_ne hk]; exact h.rest⟩

/-- More bytes on one connection do not touch the others. -/
theorem forall₂_tracks_of_notMem {input : Nat → List Byte} {conns : List Imsgev}
    {table : List (Nat × Nat)} {k : Nat} {stream : List Byte}
    (h : List.Forall₂ (Tracks input) conns table) (hk : k ∉ table.map Prod.snd) :
    List.Forall₂ (Tracks (Function.update input k stream)) conns table := by
  induction h with
  | nil => exact .nil
  | cons hhead htail ih =>
      simp only [List.map_cons, List.mem_cons, not_or] at hk
      exact .cons (hhead.of_ne (Ne.symm hk.1)) (ih hk.2)

/-- Storing a connection back replaces its own entry only. -/
theorem forall₂_tracks_store {input : Nat → List Byte} {conns : List Imsgev}
    {table : List (Nat × Nat)} {fd k : Nat} {stream : List Byte} {new : Imsgev}
    (h : List.Forall₂ (Tracks input) conns table) (hids : (table.map Prod.snd).Nodup)
    (hfds : (table.map Prod.fst).Nodup) (hmem : (fd, k) ∈ table)
    (hnew : Tracks (Function.update input k stream) new (fd, k)) :
    List.Forall₂ (Tracks (Function.update input k stream)) (storeConn conns new) table := by
  induction h with
  | nil => simp at hmem
  | @cons d p conns table hhead htail ih =>
      obtain ⟨pfd, pk⟩ := p
      simp only [List.map_cons, List.nodup_cons] at hids hfds
      have hd : d.ibuf.fd = pfd := hhead.fd
      have hfd : new.ibuf.fd = fd := hnew.fd
      rcases List.mem_cons.mp hmem with heq | hmem
      · cases heq
        rw [storeConn, if_pos (hd.trans hfd.symm)]
        exact .cons hnew (forall₂_tracks_of_notMem htail hids.1)
      · have hne : pfd ≠ fd := by
          rintro rfl
          exact hfds.1 (List.mem_map_of_mem hmem)
        have hnek : pk ≠ k := by
          rintro rfl
          exact hids.1 (List.mem_map_of_mem hmem)
        rw [storeConn, if_neg (by rw [hd, hfd]; exact hne)]
        exact .cons (hhead.of_ne hnek) (ih hids.2 hfds.2 hmem)

/-- Closing a connection drops its own entry on both sides. -/
theorem forall₂_tracks_close {input : Nat → List Byte} {conns : List Imsgev}
    {table : List (Nat × Nat)} {fd k : Nat} {stream : List Byte}
    (h : List.Forall₂ (Tracks input) conns table) (hids : (table.map Prod.snd).Nodup)
    (hfds : (table.map Prod.fst).Nodup) (hmem : (fd, k) ∈ table) :
    List.Forall₂ (Tracks (Function.update input k stream))
      (conns.eraseP fun c => c.ibuf.fd == fd) (table.filter fun p => p.1 ≠ fd) := by
  induction h with
  | nil => simp at hmem
  | @cons d p conns table hhead htail ih =>
      obtain ⟨pfd, pk⟩ := p
      simp only [List.map_cons, List.nodup_cons] at hids hfds
      have hd : d.ibuf.fd = pfd := hhead.fd
      rcases List.mem_cons.mp hmem with heq | hmem
      · cases heq
        have hall : table.filter (fun p => decide (p.1 ≠ fd)) = table := by
          rw [List.filter_eq_self]
          intro p hp
          have hne : p.1 ≠ fd := fun h => hfds.1 (h ▸ List.mem_map_of_mem hp)
          simpa using hne
        rw [List.eraseP_cons_of_pos (by simpa using hd), List.filter_cons_of_neg (by simp), hall]
        exact forall₂_tracks_of_notMem htail hids.1
      · have hne : pfd ≠ fd := by
          rintro rfl
          exact hfds.1 (List.mem_map_of_mem hmem)
        have hnek : pk ≠ k := by
          rintro rfl
          exact hids.1 (List.mem_map_of_mem hmem)
        rw [List.eraseP_cons_of_neg (by simpa [hd] using hne),
          List.filter_cons_of_pos (by simpa using hne)]
        exact .cons (hhead.of_ne hnek) (ih hids.2 hfds.2 hmem)

/-! ## One event -/

/-- A connection whose buffer was rewritten to `rest` by the message loop. -/
def keep (c : Imsgev) (rest : List Byte) : Imsgev := { c with ibuf := { c.ibuf with r := rest } }

/-- What an event on the descriptor of connection `k` can do: some bytes arrive
and the requests completed by them are queued; the connection keeps what is left
over, or is closed. -/
inductive Effect (sys : System) (fd k : Nat) (c : Imsgev) : System → Prop
  | kept (chunk rest : List Byte) (parent : Imsgev)
      (hrest : (Framing.drain Imsg.format (c.ibuf.r ++ chunk)).2 = some rest) :
      Effect sys fd k c (sys.apply k chunk
        ⟨{ sys.engine with parent, conns := storeConn sys.engine.conns (keep c rest) }, none,
          requests (c.ibuf.r ++ chunk)⟩)
  | closed (chunk : List Byte) (parent : Imsgev) :
      Effect sys fd k c (sys.apply k chunk
        ⟨{ sys.engine with parent, conns := sys.engine.conns.eraseP fun c => c.ibuf.fd == fd },
          some fd, requests (c.ibuf.r ++ chunk)⟩)

theorem Tracks.requests_nil {input : Nat → List Byte} {c : Imsgev} {p : Nat × Nat}
    (h : Tracks input c p) : requests c.ibuf.r = [] := by
  rw [requests, Framing.drain_of_incomplete (Framing.next_of_drain_rest h.rest)]
  rfl

theorem controlClose_of_found {e : Engine} {fd : Nat} {c : Imsgev} (queued : List Request)
    (h : controlConnbyfd e.conns fd = some c) :
    controlClose e fd queued =
      ⟨{ e with conns := e.conns.eraseP fun c => c.ibuf.fd == fd }, some fd, queued⟩ := by
  rw [controlClose, h]

/-- The message loop after a read that appended `chunk` to the buffer. -/
theorem dispatchLoop_effect {sys : System} {fd k : Nat} {c : Imsgev}
    (hc : controlConnbyfd sys.engine.conns fd = some c) (htracks : Tracks sys.input c (fd, k))
    (chunk : List Byte) :
    Effect sys fd k c (sys.apply k chunk
      (dispatchLoop sys.engine { c with ibuf := { c.ibuf with r := c.ibuf.r ++ chunk } })) := by
  obtain ⟨parent, hloop⟩ := dispatchLoop_spec sys.engine
    { c with ibuf := { c.ibuf with r := c.ibuf.r ++ chunk } }
  rw [hloop]
  dsimp only
  have hfd : c.ibuf.fd = fd := htracks.fd
  cases hrest : (Framing.drain Imsg.format (c.ibuf.r ++ chunk)).2 with
  | none =>
      dsimp only
      have hc' : controlConnbyfd { sys.engine with parent }.conns fd = some c := hc
      rw [hfd, controlClose_of_found _ hc']
      exact .closed chunk parent
  | some rest =>
      have hidle : Imsgev.imsgEventAdd { c with ibuf := { c.ibuf with r := rest } } =
          keep c rest := by
        simp [Imsgev.imsgEventAdd, keep, htracks.idle, htracks.events]
      dsimp only
      rw [hidle]
      exact .kept chunk rest parent hrest

/-- A readable connection: data, an interrupted read, the end of the stream or an
error. -/
theorem dispatch_effect {sys : System} {fd k : Nat} {c : Imsgev} {recv : Recv} (send : Send)
    (hc : controlConnbyfd sys.engine.conns fd = some c) (htracks : Tracks sys.input c (fd, k))
    (hfits : c.ibuf.Fits recv) :
    Effect sys fd k c (sys.apply k (readBytes ⟨true, false⟩ recv)
      (controlDispatchImsg sys.engine fd ⟨true, false⟩ recv send)) := by
  have hclosed : Effect sys fd k c (sys.apply k [] (controlClose sys.engine fd [])) := by
    have hnone : requests (c.ibuf.r ++ []) = [] := by rw [List.append_nil, htracks.requests_nil]
    rw [controlClose_of_found _ hc, ← hnone]
    exact .closed [] sys.engine.parent
  have hsame : ({ c with ibuf := { c.ibuf with r := c.ibuf.r ++ [] } } : Imsgev) = c := by simp
  cases recv with
  | bytes bs =>
      have h := dispatchLoop_effect hc htracks bs
      simpa [controlDispatchImsg, hc, Imsgbuf.imsgRead, readBytes, hfits.1,
        show ((bs.length : Int) = -1) = False by simp] using h
  | closed => simpa [controlDispatchImsg, hc, Imsgbuf.imsgRead, readBytes] using hclosed
  | failed => simpa [controlDispatchImsg, hc, Imsgbuf.imsgRead, readBytes] using hclosed
  | again =>
      have h := dispatchLoop_effect hc htracks []
      rw [hsame] at h
      simpa [controlDispatchImsg, hc, Imsgbuf.imsgRead, readBytes] using h

theorem step_client_cases {sys : System} (hinv : Invariant sys) {fd : Nat} {ready : Events}
    {recv : Recv} {send : Send} (hadm : sys.Admissible (.client fd ready recv send)) :
    sys.step (.client fd ready recv send) = sys ∨
      ∃ c k, Tracks sys.input c (fd, k) ∧ (fd, k) ∈ sys.connected ∧
        Effect sys fd k c (sys.step (.client fd ready recv send)) := by
  rw [System.step]
  split
  · rename_i c k hc hk
    obtain ⟨htracks, hmem⟩ := tracks_of_lookup hinv.tracks hc hk
    have hreported : c.reported ready = ⟨ready.read, false⟩ := by
      simp [Imsgev.reported, htracks.events]
    rw [hreported]
    cases hready : ready.read with
    | false => exact Or.inl (by simp)
    | true =>
        refine Or.inr ⟨c, k, htracks, hmem, ?_⟩
        simpa using dispatch_effect send hc htracks (hadm c hc)
  · exact Or.inl rfl

/-! ## Whole runs -/

/-- The requests of a longer stream: those of the old one, then those completed by
the new bytes together with what was left over. -/
theorem Tracks.requests_append {input : Nat → List Byte} {c : Imsgev} {p : Nat × Nat}
    (h : Tracks input c p) (chunk : List Byte) :
    requests (input p.2 ++ chunk) = requests (input p.2) ++ requests (c.ibuf.r ++ chunk) := by
  simp only [requests, Framing.drain_append (input p.2) chunk, h.rest, List.filterMap_append]

theorem Tracks.drain_append {input : Nat → List Byte} {c : Imsgev} {p : Nat × Nat}
    (h : Tracks input c p) (chunk : List Byte) :
    (Framing.drain Imsg.format (input p.2 ++ chunk)).2 =
      (Framing.drain Imsg.format (c.ibuf.r ++ chunk)).2 := by
  rw [Framing.drain_append, h.rest]

theorem queuedBy_append (sys : System) (k j : Nat) (reqs : List Request) (engine : Engine)
    (connected : List (Nat × Nat)) (accepted : Nat) (input : Nat → List Byte) :
    System.queuedBy ⟨engine, connected, accepted, input,
        sys.queued ++ reqs.map fun req => (k, req)⟩ j =
      sys.queuedBy j ++ if k = j then reqs.map Request.type else [] := by
  by_cases h : k = j
  · simp [System.queuedBy, List.filter_map, Function.comp_def, h]
  · simp [System.queuedBy, List.filter_map, Function.comp_def, h]

/-- The trace part of the invariant, which does not depend on the fate of the
connection. -/
theorem queued_apply {sys : System} (hinv : Invariant sys) {fd k : Nat} {c : Imsgev}
    (htracks : Tracks sys.input c (fd, k)) (chunk : List Byte) (engine : Engine)
    (closed : Option Nat) (j : Nat) :
    (sys.apply k chunk ⟨engine, closed, requests (c.ibuf.r ++ chunk)⟩).queuedBy j =
      (requests (Function.update sys.input k (sys.input k ++ chunk) j)).map Request.type := by
  rw [System.apply, queuedBy_append, hinv.queued j]
  by_cases h : k = j
  · subst h
    have happ := htracks.requests_append chunk
    dsimp only at happ
    rw [if_pos rfl, Function.update_self, happ, List.map_append]
  · rw [if_neg h, List.append_nil, Function.update_of_ne (Ne.symm h)]

theorem Effect.invariant {sys sys' : System} {fd k : Nat} {c : Imsgev} (hinv : Invariant sys)
    (htracks : Tracks sys.input c (fd, k)) (hmem : (fd, k) ∈ sys.connected)
    (h : Effect sys fd k c sys') : Invariant sys' := by
  have hfresh : ∀ chunk j, sys.accepted ≤ j →
      Function.update sys.input k (sys.input k ++ chunk) j = [] := by
    intro chunk j hj
    have hlt : k < sys.accepted := hinv.bound _ hmem
    rw [Function.update_of_ne (by omega)]
    exact hinv.fresh j hj
  cases h with
  | kept chunk rest parent hrest =>
      have hnew : Tracks (Function.update sys.input k (sys.input k ++ chunk)) (keep c rest)
          (fd, k) := by
        refine ⟨htracks.fd, htracks.events, htracks.idle, ?_⟩
        rw [Function.update_self]
        exact (htracks.drain_append chunk).trans hrest
      exact
        { tracks := forall₂_tracks_store hinv.tracks hinv.ids hinv.fds hmem hnew
          fds := hinv.fds
          ids := hinv.ids
          bound := hinv.bound
          fresh := hfresh chunk
          queued := queued_apply hinv htracks chunk _ none }
  | closed chunk parent =>
      have hsub : (sys.connected.filter fun p => decide (p.1 ≠ fd)).Sublist sys.connected :=
        List.filter_sublist
      exact
        { tracks := forall₂_tracks_close hinv.tracks hinv.ids hinv.fds hmem
          fds := hinv.fds.sublist (hsub.map Prod.fst)
          ids := hinv.ids.sublist (hsub.map Prod.snd)
          bound := fun p hp => hinv.bound p (hsub.subset hp)
          fresh := hfresh chunk
          queued := queued_apply hinv htracks chunk _ (some fd) }

theorem invariant_accept {sys : System} (hinv : Invariant sys) {fd : Nat}
    (hfd : fd ∉ sys.connected.map Prod.fst) : Invariant (sys.step (.accept (some fd))) := by
  have hid : sys.accepted ∉ sys.connected.map Prod.snd := by
    intro hmem
    obtain ⟨p, hp, heq⟩ := List.mem_map.mp hmem
    exact absurd (hinv.bound p hp) (by omega)
  have hnew : Tracks sys.input (.init fd sys.engine.parent.ibuf.pid) (fd, sys.accepted) := by
    refine ⟨rfl, rfl, rfl, ?_⟩
    rw [hinv.fresh _ le_rfl]
    exact congrArg Prod.snd (Framing.drain_of_incomplete rfl)
  exact
    { tracks := List.rel_append hinv.tracks (.cons hnew .nil)
      fds := by
        simpa [System.step, List.nodup_append] using ⟨hinv.fds, fun a b h => by
          rintro rfl
          exact hfd (List.mem_map_of_mem h)⟩
      ids := by
        simpa [System.step, List.nodup_append] using ⟨hinv.ids, fun a b h => by
          rintro rfl
          exact hid (List.mem_map_of_mem h)⟩
      bound := by
        intro p hp
        rcases List.mem_append.mp hp with hp | hp
        · exact Nat.lt_succ_of_lt (hinv.bound p hp)
        · rw [List.mem_singleton.mp hp]
          exact Nat.lt_succ_self _
      fresh := fun k hk => hinv.fresh k (Nat.le_of_succ_le hk)
      queued := hinv.queued }

theorem ifconfigdDispatchParent_conns (e : Engine) (event : Events) (recv : Recv) (send : Send) :
    (ifconfigdDispatchParent e event recv send).conns = e.conns := by
  unfold ifconfigdDispatchParent
  split
  · dsimp only
    split_ifs
    · rfl
    · split <;> rfl
  · dsimp only
    split_ifs <;> rfl
  · rfl

theorem step_parent_cases (sys : System) (ready : Events) (recv : Recv) (send : Send) :
    ∃ engine : Engine, engine.conns = sys.engine.conns ∧
      sys.step (.parent ready recv send) = { sys with engine } := by
  rw [System.step]
  split_ifs
  · exact ⟨_, ifconfigdDispatchParent_conns _ _ _ _, rfl⟩
  · exact ⟨sys.engine, rfl, rfl⟩

theorem step_invariant (sys : System) (e : Event) (sys' : System) (hinv : Invariant sys)
    (h : Step sys e sys') : Invariant sys' := by
  obtain ⟨-, hadm, rfl⟩ := h
  match e with
  | .accept none => exact hinv
  | .accept (some fd) => exact invariant_accept hinv hadm
  | .client fd ready recv send =>
      rcases step_client_cases hinv hadm with hsame | ⟨c, k, htracks, hmem, heffect⟩
      · rw [hsame]
        exact hinv
      · exact heffect.invariant hinv htracks hmem
  | .parent ready recv send =>
      obtain ⟨engine, hconns, hstep⟩ := step_parent_cases sys ready recv send
      rw [hstep]
      exact ⟨hconns ▸ hinv.tracks, hinv.fds, hinv.ids, hinv.bound, hinv.fresh, hinv.queued⟩

theorem init_invariant (parentFd : Nat) (pid : UInt32) : Invariant (.init parentFd pid) where
  tracks := .nil
  fds := List.nodup_nil
  ids := List.nodup_nil
  bound := by simp [System.init]
  fresh := fun _ _ => rfl
  queued := fun _ => (congrArg (List.map Request.type) requests_nil).symm

/-! ## Events on other descriptors -/

theorem connbyfd_store_of_ne {conns : List Imsgev} {new : Imsgev} {fd : Nat}
    (h : new.ibuf.fd ≠ fd) :
    controlConnbyfd (storeConn conns new) fd = controlConnbyfd conns fd := by
  induction conns with
  | nil => rfl
  | cons c conns ih =>
      rw [storeConn]
      split_ifs with hc
      · simp [controlConnbyfd, h, hc]
      · simp only [controlConnbyfd, List.find?_cons] at ih ⊢
        rw [ih]

theorem connbyfd_erase_of_ne {conns : List Imsgev} {fd fd' : Nat} (h : fd ≠ fd') :
    controlConnbyfd (conns.eraseP fun c => c.ibuf.fd == fd) fd' = controlConnbyfd conns fd' := by
  induction conns with
  | nil => rfl
  | cons c conns ih =>
      by_cases hc : c.ibuf.fd = fd
      · have hne : (c.ibuf.fd == fd') = false := by simpa [hc] using h
        rw [List.eraseP_cons_of_pos (by simpa using hc)]
        simp [controlConnbyfd, hne]
      · rw [List.eraseP_cons_of_neg (by simpa using hc)]
        simp only [controlConnbyfd, List.find?_cons] at ih ⊢
        rw [ih]

theorem lookup_filter_of_ne {table : List (Nat × Nat)} {fd fd' : Nat} (h : fd ≠ fd') :
    (table.filter fun p => decide (p.1 ≠ fd)).lookup fd' = table.lookup fd' := by
  induction table with
  | nil => rfl
  | cons p table ih =>
      by_cases hp : p.1 = fd
      · have hne : (fd' == p.1) = false := by simpa [hp] using Ne.symm h
        rw [List.filter_cons_of_neg (by simpa using hp), ih, List.lookup_cons, hne]
      · rw [List.filter_cons_of_pos (by simpa using hp), List.lookup_cons, List.lookup_cons, ih]

theorem lookup_snoc_of_ne {table : List (Nat × Nat)} {fd fd' k : Nat} (h : fd ≠ fd') :
    (table ++ [(fd, k)]).lookup fd' = table.lookup fd' := by
  have hne : (fd' == fd) = false := by simpa using Ne.symm h
  rw [List.lookup_append]
  simp [List.lookup_cons, hne]

/-- An event on one descriptor neither changes nor closes the connection on
another one. -/
theorem step_other {sys sys' : System} {e : Event} (hinv : Invariant sys) (h : Step sys e sys')
    {fd : Nat} (hfd : e.fd ≠ some fd) :
    controlConnbyfd sys'.engine.conns fd = controlConnbyfd sys.engine.conns fd ∧
      sys'.connected.lookup fd = sys.connected.lookup fd := by
  obtain ⟨-, hadm, rfl⟩ := h
  match e with
  | .accept none => exact ⟨rfl, rfl⟩
  | .accept (some new) =>
      have hne : new ≠ fd := fun h => hfd (congrArg some h)
      refine ⟨?_, lookup_snoc_of_ne hne⟩
      simp [System.step, controlAccept, controlConnbyfd, List.find?_append, Imsgev.init,
        Imsgbuf.init, hne]
  | .client other ready recv send =>
      have hne : other ≠ fd := fun h => hfd (congrArg some h)
      rcases step_client_cases hinv hadm with hsame | ⟨c, k, htracks, -, heffect⟩
      · rw [hsame]
        exact ⟨rfl, rfl⟩
      · have hc : c.ibuf.fd = other := htracks.fd
        generalize sys.step (.client other ready recv send) = sys' at heffect
        cases heffect with
        | kept chunk rest parent hrest =>
            exact ⟨connbyfd_store_of_ne (by simpa [keep, hc] using hne), rfl⟩
        | closed chunk parent =>
            exact ⟨connbyfd_erase_of_ne hne, lookup_filter_of_ne hne⟩
  | .parent ready recv send =>
      obtain ⟨engine, hconns, hstep⟩ := step_parent_cases sys ready recv send
      rw [hstep]
      exact ⟨by rw [hconns], rfl⟩

theorem conns_fds {sys : System} (hinv : Invariant sys) :
    sys.engine.conns.map (fun c => c.ibuf.fd) = sys.connected.map Prod.fst := by
  rw [← List.forall₂_eq_eq_eq, List.forall₂_map_left_iff, List.forall₂_map_right_iff]
  exact hinv.tracks.imp fun c p h => h.fd

end Ifconfigd.Control
