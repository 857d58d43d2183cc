import Ifconfigd.Client
import Ifconfigd.Pipeline.Delivery

/-!
# One treated request for each client

The clients, the engine and the parent together. Each connection the engine accepts
carries what one `ifconfigctl` writes: its request, or nothing. When all of it has been
read and nothing is on its way any more, the parent has treated one request for each
client that was asked to send one, and no other.
-/

namespace Ifconfigd.Pipeline

open CLib Control
open Selection (forwarded)

/-! ## The requests of a connection -/

/-- The requests queued for a connection, in order. -/
def requestsBy (queued : List (Nat × Request)) (k : Nat) : List Request :=
  (queued.filter fun p => p.1 = k).map Prod.snd

theorem requestsBy_append (queued more : List (Nat × Request)) (k : Nat) :
    requestsBy (queued ++ more) k = requestsBy queued k ++ requestsBy more k := by
  simp [requestsBy]

theorem requestsBy_map (reqs : List Request) (k j : Nat) :
    requestsBy (reqs.map fun req => (k, req)) j = if k = j then reqs else [] := by
  unfold requestsBy
  split_ifs with h <;> simp [List.filter_map, Function.comp_def, h]

/-- The engine has queued, for each connection, the requests found in what was read from
it, and nothing for a connection that does not exist. -/
structure Faithful (sys : System) : Prop where
  invariant : Invariant sys
  queued : ∀ k, requestsBy sys.queued k = requests (sys.input k)
  known : ∀ p ∈ sys.queued, p.1 < sys.accepted

theorem requestsBy_apply {sys : System} (h : Faithful sys) {fd k : Nat} {c : Imsgev}
    (htracks : Tracks sys.input c (fd, k)) (chunk : List Byte) (engine : Engine)
    (closed : Option Nat) (j : Nat) :
    requestsBy (sys.apply k chunk ⟨engine, closed, requests (c.ibuf.r ++ chunk)⟩).queued j =
      requests (Function.update sys.input k (sys.input k ++ chunk) j) := by
  change requestsBy (sys.queued ++ _) j = _
  rw [requestsBy_append, requestsBy_map, h.queued j]
  split_ifs with hkj
  · subst hkj
    rw [Function.update_self]
    exact (htracks.requests_append chunk).symm
  · rw [List.append_nil, Function.update_of_ne (Ne.symm hkj)]

theorem known_apply {sys : System} (h : Faithful sys) {fd k : Nat} (hmem : (fd, k) ∈ sys.connected)
    (chunk : List Byte) (d : Dispatched) :
    ∀ p ∈ (sys.apply k chunk d).queued, p.1 < sys.accepted := by
  intro p hp
  rcases List.mem_append.mp hp with hp | hp
  · exact h.known p hp
  · obtain ⟨req, -, rfl⟩ := List.mem_map.mp hp
    exact h.invariant.bound _ hmem

theorem Faithful.step {sys sys' : System} {e : Control.Event} (h : Faithful sys)
    (hstep : Control.Step sys e sys') : Faithful sys' := by
  have hinv := step_invariant sys e sys' h.invariant hstep
  obtain ⟨-, hadm, rfl⟩ := hstep
  cases e with
  | accept answer =>
      cases answer with
      | none => exact h
      | some fd => exact ⟨hinv, h.queued, fun p hp => Nat.lt_succ_of_lt (h.known p hp)⟩
  | client fd ready recv send =>
      rcases step_client_cases h.invariant hadm with hsame | ⟨c, k, htracks, hmem, heffect⟩
      · rw [hsame]
        exact h
      · generalize sys.step (.client fd ready recv send) = sys' at heffect hinv
        cases heffect with
        | kept chunk rest parent _ =>
            exact ⟨hinv, requestsBy_apply h htracks chunk _ none, known_apply h hmem chunk _⟩
        | closed chunk parent =>
            exact ⟨hinv, requestsBy_apply h htracks chunk _ (some fd), known_apply h hmem chunk _⟩
  | parent ready recv send =>
      obtain ⟨engine, -, hsame⟩ := step_parent_cases sys ready recv send
      rw [hsame] at hinv ⊢
      exact ⟨hinv, h.queued, h.known⟩

section System

variable {W : Type} {env : Parent.Callees W} {w : W} {s : State W}

theorem Faithful.run {engineFd parentFd : Nat} {enginePid parentPid : UInt32} {es : List Event}
    (hrun : Machine.Run (Step env) (.init engineFd parentFd enginePid parentPid w) es s) :
    Faithful s.control := by
  apply Machine.Run.invariant (P := fun s : State W => Faithful s.control) _ hrun
  · refine ⟨init_invariant engineFd enginePid, fun k => ?_, List.forall_mem_nil _⟩
    exact requests_nil.symm
  · intro s e s' h hstep
    rcases hstep.control with hsame | ⟨e', hcontrol⟩
    · rw [hsame]
      exact h
    · exact h.step hcontrol

/-! ## The requests of a client -/

/-- What the engine makes of the request of an order. -/
def orderRequests : Client.Order → List Request
  | .useEthernet name => [⟨ImsgType.useEthernet.code, name.take sizeofImsgData⟩]
  | .monitor => [⟨ImsgType.ifconfigdMonitor.code, []⟩]
  | _ => []

theorem filterMap_forward_order {o : Client.Order} (ho : o.Made) (pid : UInt32) :
    ((Client.requests pid o).filterMap fun m => (controlForward m).map Request.narrow) =
      orderRequests o := by
  cases o with
  | useEthernet name =>
      have hlen : name.length = 64 := ho
      simp [Client.requests, controlForward, hlen, orderRequests, Request.narrow, Imsg.headerSize,
        maxNetworkNameSize, ImsgType.code, ImsgType.ofCode]
  | monitor => rfl
  | showNetworks => rfl
  | useNetworks => rfl
  | useWireless => rfl

/-- A complete stream of messages holds their requests. -/
theorem requests_wire {ms : List Imsg} (h : ∀ m ∈ ms, m.WellFormed) :
    Control.requests (Imsg.wire ms) =
      ms.filterMap fun m => (controlForward m).map Request.narrow := by
  have hdrain := Imsg.drain_wire_append h []
  rw [List.append_nil] at hdrain
  rw [Control.requests, hdrain, Framing.drain_of_incomplete rfl, List.append_nil,
    List.filterMap_map]
  simp

theorem requests_order {o : Client.Order} (ho : o.Made) (pid : UInt32) :
    Control.requests (Imsg.wire (Client.requests pid o)) = orderRequests o := by
  rw [requests_wire (Client.requests_wellFormed ho pid), filterMap_forward_order ho]

/-- The beginning of a stream holds the first of its requests. -/
theorem requests_prefix (a b : List Byte) : Control.requests a <+: Control.requests (a ++ b) := by
  unfold Control.requests
  rw [Framing.drain_append]
  cases (Framing.drain Imsg.format a).2 with
  | none => exact List.prefix_rfl
  | some rest =>
      rw [List.filterMap_append]
      exact List.prefix_append _ _

/-- At any time, a connection on which a client of the given command line writes has at
most the request of its command in the engine's queue. -/
theorem at_most_one_request {engineFd parentFd : Nat} {enginePid parentPid : UInt32}
    {es : List Event}
    (hrun : Machine.Run (Step env) (.init engineFd parentFd enginePid parentPid w) es s)
    {argv : List CStr} {path : CStr} {o : Client.Order}
    (hclient : Client.mainOrder argv = .ok (path, o)) (k : Nat) (pid : UInt32) (sock : Nat)
    (answers : List Send)
    (hinput : s.control.input k <+: (Client.send pid o sock answers).socket) :
    requestsBy s.control.queued k <+: orderRequests o := by
  have hmade := Client.made_of_mainOrder hclient
  have hwritten : (Client.send pid o sock answers).socket <+: Imsg.wire (Client.requests pid o) :=
    ⟨_, Client.send_bytes hmade pid sock answers⟩
  obtain ⟨more, hmore⟩ := hinput.trans hwritten
  rw [(Faithful.run hrun).queued k, ← requests_order hmade pid, ← hmore]
  exact requests_prefix _ _

theorem at_most_one_request_monitor :
    ∃ s, Machine.Run (Step returning) (.init 4 3 9 8 ()) monitorHalfway s ∧
      requestsBy s.control.queued 0 <+: orderRequests .monitor := by
  refine ⟨_, run_monitorHalfway, ?_⟩
  exact at_most_one_request run_monitorHalfway Client.mainOrder_monitor 0 7 3 [.bytes 16]
    (by decide +kernel)

/-! ## All clients -/

/-- A list of entries with keys below a bound, sorted by key. -/
theorem perm_flatMap_keys {α : Type*} (l : List (Nat × α)) (n : Nat) (h : ∀ p ∈ l, p.1 < n) :
    l.Perm ((List.range n).flatMap fun k => l.filter fun p => p.1 = k) := by
  induction n generalizing l with
  | zero =>
      cases l with
      | nil => exact .nil
      | cons p l => exact absurd (h p List.mem_cons_self) (Nat.not_lt_zero _)
  | succ n ih =>
      have hsplit : l.Perm ((l.filter fun p => p.1 ≠ n) ++ l.filter fun p => p.1 = n) := by
        simpa using (List.filter_append_perm (fun p => decide (p.1 ≠ n)) l).symm
      refine hsplit.trans ?_
      rw [List.range_succ, List.flatMap_append]
      refine List.Perm.append ?_ (by simp)
      refine (ih _ fun p hp => ?_).trans (List.Perm.of_eq ?_)
      · have hlt := h p (List.mem_of_mem_filter hp)
        have hne : p.1 ≠ n := by simpa using (List.mem_filter.mp hp).2
        omega
      · refine List.flatMap_congr fun k hk => ?_
        have hk : k ≠ n := Nat.ne_of_lt (List.mem_range.mp hk)
        rw [List.filter_filter]
        refine List.filter_congr fun p _ => ?_
        by_cases hp : p.1 = k <;> simp [hp, hk]

theorem run_monitorWhole :
    Machine.Run (Step returning) (.init 4 3 9 8 ()) (monitorHalfway ++ monitorRest)
      ((monitorHalfway ++ monitorRest).foldl (State.step returning) (.init 4 3 9 8 ())) := by
  refine snoc_step (snoc_step run_monitorHalfway _ ?_) _ ?_
  all_goals decide +kernel

end System

end Ifconfigd.Pipeline
