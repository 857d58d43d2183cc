import Ifconfigd.Lib.Getopt
import Ifconfigd.Lib.WordTable
import Ifconfigd.Pipeline

/-!
# The control client

`ifconfigctl` takes its options and a command from the command line, connects to the
control socket and sends at most one request. This module models its `main`: the options
by `getopt`, the command by a binary search in the table `keywords`, the request that is
composed for it, and the loop that writes the request to the socket.

Three of the five commands are accepted and send nothing.
-/

namespace Ifconfigd.Client

open CLib

/-! ## Commands -/

/-- The enumerators of `ifconfigctl.h`. -/
inductive Keyword
  | null
  | monitor
  | show
  | useEth
  | useNet
  | useWlan
  deriving DecidableEq, Repr

/-- `keywords`. -/
def keywords : List (CStr × Keyword) :=
  [(CStr.lit "monitor", .monitor), (CStr.lit "show", .show), (CStr.lit "uselan", .useEth),
    (CStr.lit "usenet", .useNet), (CStr.lit "usewlan", .useWlan)]

/-- `keycmp`. -/
def keycmp (key : CStr) (kt : CStr × Keyword) : Int := strcmp key kt.1

/-- `keyword`. -/
def keyword (cp : CStr) : Keyword := ((bsearch (keycmp cp) keywords).map Prod.snd).getD .null

theorem keywords_ascend : (keywords.map fun e => e.1.ranks).Pairwise (· < ·) := by
  decide +kernel

/-- The binary search finds what stands in the table. -/
theorem keyword_eq (cp : CStr) :
    keyword cp = ((keywords.find? fun e => e.1 = cp).map Prod.snd).getD .null := by
  unfold keyword keycmp
  rw [bsearch_words keywords_ascend]

theorem keyword_cases (cp : CStr) :
    (cp, keyword cp) ∈ keywords ∨ (keyword cp = .null ∧ cp ∉ keywords.map Prod.fst) := by
  rw [keyword_eq]
  cases hfind : keywords.find? fun e => e.1 = cp with
  | none =>
      refine .inr ⟨rfl, fun hmem => ?_⟩
      obtain ⟨e, he, heq⟩ := List.mem_map.mp hmem
      exact List.find?_eq_none.mp hfind e he (by simpa using heq)
  | some e =>
      have heq : e.1 = cp := by simpa using List.find?_some hfind
      rw [← heq]
      exact .inl (List.mem_of_find?_eq_some hfind)

/-- What `main` has been told to do: `imsgflag`, and the buffer `name` where it is used. -/
inductive Order
  | monitor
  | showNetworks
  | useEthernet (name : List Byte)
  | useNetworks
  | useWireless
  deriving DecidableEq, Repr

/-- The ways in which `main` ends before it connects: the usage message, or a read through
the null pointer at the end of `argv`. -/
inductive Ends
  | usage
  | crash
  deriving DecidableEq, Repr

/-- The first `switch` of `main`, with the arguments behind the command. -/
def select : Keyword → List CStr → Except Ends Order
  | .monitor, _ => .ok .monitor
  | .show, _ => .ok .showNetworks
  | .useEth, [] => .error .crash
  | .useEth, name :: _ => .ok (.useEthernet (strncpy Control.maxNetworkNameSize name))
  | .useNet, _ => .ok .useNetworks
  | .useWlan, _ => .ok .useWireless
  | .null, _ => .error .usage

/-- `main` between its options and the connection. -/
def order : List CStr → Except Ends Order
  | [] => .error .usage
  | command :: args => select (keyword command) args

/-- The option string `s:v`. -/
def optstring : List Byte := asciiBytes "s:v"

/-- `csockpath` after the options. -/
def csockpath (opts : List (Byte × Option CStr)) : CStr :=
  opts.foldl (fun path o => if o.1 = 115 then o.2.getD path else path)
    (CStr.lit "/var/run/ifconfigd.sock")

/-- `main` up to the connection, without the name of the program: the path of the socket
and the order. -/
def mainOrder (argv : List CStr) : Except Ends (CStr × Order) :=
  match Getopt.readOptions optstring ⟨[], argv⟩ with
  | .error _ => .error .usage
  | .ok (opts, args) => (order args).map fun o => (csockpath opts, o)

/-! ## The request -/

/-- The second `switch` of `main`. -/
def compose (b : Imsgbuf) : Order → Imsgbuf
  | .useEthernet name => (b.imsgCompose ImsgType.useEthernet.code 0 0 name).getD b
  | .monitor => (b.imsgCompose ImsgType.ifconfigdMonitor.code 0 0 []).getD b
  | _ => b

/-- The messages of an order, none or one. -/
def requests (pid : UInt32) : Order → List Imsg
  | .useEthernet name =>
      [⟨⟨ImsgType.useEthernet.code, .ofNat (Imsg.headerSize + name.length), 0, 0, pid⟩, name⟩]
  | .monitor => [⟨⟨ImsgType.ifconfigdMonitor.code, .ofNat Imsg.headerSize, 0, 0, pid⟩, []⟩]
  | _ => []

/-- An order as `main` makes it: the buffer `name` has its fixed size. -/
def Order.Made : Order → Prop
  | .useEthernet name => name.length = Control.maxNetworkNameSize
  | _ => True

theorem made_of_order {args : List CStr} {o : Order} (h : order args = .ok o) : o.Made := by
  unfold order at h
  split at h
  · cases h
  · unfold select at h
    split at h <;> cases h
    all_goals first
      | trivial
      | exact strncpy_length _ _

theorem requests_wellFormed {o : Order} (ho : o.Made) (pid : UInt32) :
    ∀ m ∈ requests pid o, m.WellFormed := by
  cases o with
  | useEthernet name =>
      intro m hm
      cases List.mem_singleton.mp hm
      have hlen : name.length = 64 := ho
      constructor
      · simp [Imsg.headerSize, hlen]
      · simp [Imsg.headerSize, Imsg.maxImsgSize, hlen]
  | monitor =>
      intro m hm
      cases List.mem_singleton.mp hm
      exact ⟨rfl, Nat.le_of_ble_eq_true rfl⟩
  | showNetworks => exact List.forall_mem_nil _
  | useNetworks => exact List.forall_mem_nil _
  | useWireless => exact List.forall_mem_nil _

theorem compose_w {o : Order} (ho : o.Made) (sock : Nat) (pid : UInt32) :
    (compose (.init sock pid) o).w = (requests pid o).map Imsg.encode := by
  cases o with
  | useEthernet name =>
      have hlen : name.length = 64 := ho
      simp [compose, requests, Imsgbuf.imsgCompose, Imsgbuf.init, hlen, Imsg.headerSize,
        Imsg.maxImsgSize]
  | monitor => rfl
  | showNetworks => rfl
  | useNetworks => rfl
  | useWireless => rfl

/-! ## Writing it -/

/-- The loop `while (ibuf.w.queued)`: the buffer, the bytes the socket has taken, and
whether a write has failed. -/
structure Writing where
  ibuf : Imsgbuf
  socket : List Byte
  failed : Bool

/-- One turn of the loop. -/
def Writing.turn (s : Writing) (send : Send) : Writing :=
  if s.failed ∨ s.ibuf.w = [] then s
  else if (s.ibuf.msgbufWrite send).2 < 0 then { s with failed := true }
  else
    ⟨(s.ibuf.msgbufWrite send).1,
      s.socket ++ Pipeline.writtenBytes ⟨s.ibuf, ⟨false, true⟩⟩ ⟨false, true⟩ send, false⟩

/-- `main` from the connection on, with the answers of the socket. -/
def send (pid : UInt32) (o : Order) (sock : Nat) (answers : List Send) : Writing :=
  answers.foldl Writing.turn ⟨compose (.init sock pid) o, [], false⟩

theorem turn_bytes (s : Writing) (send : Send) :
    (s.turn send).socket ++ (s.turn send).ibuf.w.flatten = s.socket ++ s.ibuf.w.flatten := by
  unfold Writing.turn
  split_ifs
  · rfl
  · rfl
  · have hwrites := (Pipeline.writes_msgbufWrite ⟨s.ibuf, ⟨false, true⟩⟩ send).queue
    dsimp only
    rw [List.append_assoc]
    exact congrArg (s.socket ++ ·) hwrites

theorem foldl_turn_bytes (answers : List Send) (s : Writing) :
    (answers.foldl Writing.turn s).socket ++ (answers.foldl Writing.turn s).ibuf.w.flatten =
      s.socket ++ s.ibuf.w.flatten := by
  induction answers generalizing s with
  | nil => rfl
  | cons answer answers ih => exact (ih (s.turn answer)).trans (turn_bytes s answer)

/-- Whatever pieces the socket takes, what it has taken and what is still in the buffer are
the request of the order, one behind the other. -/
theorem send_bytes {o : Order} (ho : o.Made) (pid : UInt32) (sock : Nat) (answers : List Send) :
    (send pid o sock answers).socket ++ (send pid o sock answers).ibuf.w.flatten =
      Imsg.wire (requests pid o) := by
  refine (foldl_turn_bytes answers _).trans ?_
  rw [List.nil_append, compose_w ho, Imsg.wire]

/-! ## What a command line does -/

theorem made_of_mainOrder {argv : List CStr} {path : CStr} {o : Order}
    (h : mainOrder argv = .ok (path, o)) : o.Made := by
  unfold mainOrder at h
  split at h
  · cases h
  · next opts args _ =>
      cases horder : order args with
      | error e =>
          rw [horder] at h
          cases h
      | ok o' =>
          rw [horder] at h
          cases h
          exact made_of_order horder

/-- The commands that send something. -/
def Sends (command : CStr) : Prop := command = CStr.lit "monitor" ∨ command = CStr.lit "uselan"

instance (command : CStr) : Decidable (Sends command) := inferInstanceAs (Decidable (_ ∨ _))

theorem mainOrder_words {opts : List (Byte × Option CStr)}
    (hopts : ∀ o ∈ opts, Getopt.Allowed optstring o) {args : List CStr}
    (hargs : Getopt.Operands args) :
    mainOrder (opts.flatMap Getopt.words ++ args) =
      (order args).map fun o => (csockpath opts, o) := by
  unfold mainOrder
  rw [Getopt.readOptions_words hopts hargs]

/-- The first `switch`, for each command of the table and for any other word. -/
inductive Switch (args : List CStr) : CStr → Except Ends Order → Prop
  | monitor : Switch args (CStr.lit "monitor") (.ok .monitor)
  | show : Switch args (CStr.lit "show") (.ok .showNetworks)
  | unnamed (h : args = []) : Switch args (CStr.lit "uselan") (.error .crash)
  | named {name : List Byte} (h : args ≠ []) :
      Switch args (CStr.lit "uselan") (.ok (.useEthernet name))
  | usenet : Switch args (CStr.lit "usenet") (.ok .useNetworks)
  | usewlan : Switch args (CStr.lit "usewlan") (.ok .useWireless)
  | unknown {command : CStr} (h : command ∉ keywords.map Prod.fst) :
      Switch args command (.error .usage)

theorem switch_order (command : CStr) (args : List CStr) :
    Switch args command (order (command :: args)) := by
  change Switch args command (select (keyword command) args)
  rcases keyword_cases command with hmem | ⟨hnull, hnone⟩
  · simp only [keywords, List.mem_cons, Prod.mk.injEq, List.not_mem_nil, or_false] at hmem
    rcases hmem with ⟨rfl, hkey⟩ | ⟨rfl, hkey⟩ | ⟨rfl, hkey⟩ | ⟨rfl, hkey⟩ | ⟨rfl, hkey⟩ <;>
      rw [hkey]
    · exact .monitor
    · exact .show
    · cases args with
      | nil => exact .unnamed rfl
      | cons name args => exact .named (List.cons_ne_nil _ _)
    · exact .usenet
    · exact .usewlan
  · rw [hnull]
    exact .unknown hnone

section

variable {args : List CStr} {command : CStr} {result : Except Ends Order}

theorem Switch.usage_iff (h : Switch args command result) :
    result = .error .usage ↔ command ∉ keywords.map Prod.fst := by
  cases h with
  | unknown hnone => exact ⟨fun _ => hnone, fun _ => rfl⟩
  | _ =>
      constructor
      · intro h
        cases h
      · intro hnone
        exact absurd (by decide +kernel) hnone

theorem Switch.crash_iff (h : Switch args command result) :
    result = .error .crash ↔ command = CStr.lit "uselan" ∧ args = [] := by
  cases h with
  | unnamed hargs => exact ⟨fun _ => ⟨rfl, hargs⟩, fun _ => rfl⟩
  | named hargs =>
      constructor
      · intro h
        cases h
      · intro h
        exact absurd h.2 hargs
  | unknown hnone =>
      constructor
      · intro h
        cases h
      · rintro ⟨rfl, -⟩
        exact absurd (by decide +kernel) hnone
  | _ =>
      constructor
      · intro h
        cases h
      · intro h
        exact absurd h.1 (by decide +kernel)

theorem Switch.requests_length {o : Order} (h : Switch args command (.ok o)) (pid : UInt32) :
    (requests pid o).length = if Sends command then 1 else 0 := by
  cases h with
  | monitor => rw [if_pos (by decide +kernel)]; rfl
  | named => rw [if_pos (by decide +kernel)]; rfl
  | _ => rw [if_neg (by decide +kernel)]; rfl

end

theorem map_eq_error_iff {α β ε : Type*} {f : α → β} {r : Except ε α} {e : ε} :
    r.map f = .error e ↔ r = .error e := by
  cases r with
  | error e' => simp [Except.map]
  | ok a => simp [Except.map]

/-- A command line of options and a command. It ends in the usage message exactly if the
command is none of the table, and in a crash exactly if the command is `uselan` without a
name. Otherwise the client has the socket of its options and at most one request, which
only `monitor` and `uselan` have. -/
theorem main_does {opts : List (Byte × Option CStr)}
    (hopts : ∀ o ∈ opts, Getopt.Allowed optstring o) {command : CStr}
    (hcommand : command.bytes.head? ≠ some 45) (args : List CStr) :
    let argv := opts.flatMap Getopt.words ++ command :: args
    (mainOrder argv = .error .usage ↔ command ∉ keywords.map Prod.fst) ∧
      (mainOrder argv = .error .crash ↔ command = CStr.lit "uselan" ∧ args = []) ∧
      ∀ path o, mainOrder argv = .ok (path, o) → path = csockpath opts ∧
        ∀ pid, (requests pid o).length = if Sends command then 1 else 0 := by
  have hargs : Getopt.Operands (command :: args) := by
    intro a ha
    cases ha
    exact hcommand
  have hswitch := switch_order command args
  intro argv
  rw [mainOrder_words hopts hargs]
  refine ⟨map_eq_error_iff.trans hswitch.usage_iff, map_eq_error_iff.trans hswitch.crash_iff, ?_⟩
  intro path o hok
  cases hresult : order (command :: args) with
  | error e =>
      rw [hresult] at hok
      cases hok
  | ok o' =>
      rw [hresult] at hok hswitch
      cases hok
      exact ⟨rfl, hswitch.requests_length⟩

theorem main_does_uselan :
    let opts : List (Byte × Option CStr) := [(115, some (CStr.lit "/tmp/s")), (118, none)]
    let argv := opts.flatMap Getopt.words ++ [CStr.lit "uselan"]
    mainOrder argv = .error .crash := by
  intro opts argv
  refine (@main_does opts ?_ (CStr.lit "uselan") (by decide +kernel) []).2.1.mpr ⟨rfl, rfl⟩
  intro o ho
  simp only [opts, List.mem_cons, List.not_mem_nil, or_false] at ho
  rcases ho with rfl | rfl
  · exact ⟨by decide, by decide +kernel⟩
  · exact ⟨by decide, by decide +kernel⟩

/-- In whatever pieces the socket takes it, what a client has written is the beginning of
its request, and the whole request when the loop is left without an error. -/
theorem client_writes {argv : List CStr} {path : CStr} {o : Order}
    (h : mainOrder argv = .ok (path, o)) (pid : UInt32) (sock : Nat) (answers : List Send) :
    (send pid o sock answers).socket <+: Imsg.wire (requests pid o) ∧
      ((send pid o sock answers).ibuf.w = [] →
        (send pid o sock answers).socket = Imsg.wire (requests pid o)) := by
  have hbytes := send_bytes (made_of_mainOrder h) pid sock answers
  constructor
  · exact ⟨_, hbytes⟩
  · intro hempty
    rwa [hempty, List.flatten_nil, List.append_nil] at hbytes

theorem mainOrder_monitor :
    mainOrder [CStr.lit "monitor"] = .ok (CStr.lit "/var/run/ifconfigd.sock", .monitor) := by
  have hargs : Getopt.Operands [CStr.lit "monitor"] := by
    intro a ha
    cases ha
    decide +kernel
  refine (@mainOrder_words [] (List.forall_mem_nil _) _ hargs).trans ?_
  decide +kernel

theorem client_writes_monitor :
    let sent := send 7 .monitor 3 [.again, .bytes 10, .bytes 6]
    sent.ibuf.w = [] ∧ sent.socket = Imsg.wire (requests 7 .monitor) := by
  intro sent
  have hempty : sent.ibuf.w = [] := by decide +kernel
  exact ⟨hempty, (client_writes mainOrder_monitor 7 3 [.again, .bytes 10, .bytes 6]).2 hempty⟩

end Ifconfigd.Client
