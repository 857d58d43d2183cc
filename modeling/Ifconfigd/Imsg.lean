import Ifconfigd.Lib.Bytes
import Ifconfigd.Lib.Framing

/-!
# Inter-process messages

The two processes and the control clients talk in `imsg`s: a sixteen-byte header
(type, length of header and payload, flags, peer and process id) and a payload,
written to a stream socket. This module models libutil's `imsg.c` and
`imsg-buffer.c` as far as the daemon uses them. Descriptor passing is not used by
the daemon and is left out: every message is composed with descriptor `-1`.

Words are stored little-endian, as on amd64 and i386.
-/

namespace Ifconfigd

open CLib

/-- `enum imsg_type`. -/
inductive ImsgType
  | none
  | useEthernet
  | useNetworks
  | useWireless
  | showEthernet
  | showNetworks
  | showWireless
  | ifconfigdMonitor
  deriving DecidableEq, Repr

/-- The value of the enumerator, as it stands in a header. -/
def ImsgType.code : ImsgType → UInt32
  | .none => 0
  | .useEthernet => 1
  | .useNetworks => 2
  | .useWireless => 3
  | .showEthernet => 4
  | .showNetworks => 5
  | .showWireless => 6
  | .ifconfigdMonitor => 7

/-- The enumerator a `switch` over a header's type finds, if there is one. -/
def ImsgType.ofCode (c : UInt32) : Option ImsgType :=
  match c.toNat with
  | 0 => some .none
  | 1 => some .useEthernet
  | 2 => some .useNetworks
  | 3 => some .useWireless
  | 4 => some .showEthernet
  | 5 => some .showNetworks
  | 6 => some .showWireless
  | 7 => some .ifconfigdMonitor
  | _ => Option.none

@[simp] theorem ImsgType.ofCode_code (t : ImsgType) : ofCode t.code = some t := by
  cases t <;> rfl

theorem ImsgType.ofCode_eq_some {c : UInt32} {t : ImsgType} (h : ofCode c = some t) :
    c = t.code := by
  unfold ofCode at h
  apply UInt32.toNat_inj.mp
  split at h <;> cases h <;> assumption

namespace Imsg

/-- `IMSG_HEADER_SIZE`, the size of `struct imsg_hdr`. -/
def headerSize : Nat := 16

/-- `MAX_IMSGSIZE`. -/
def maxImsgSize : Nat := 16384

/-- `IBUF_READ_SIZE`, the size of a read buffer. -/
def readSize : Nat := 65535

/-- `struct imsg_hdr`. -/
structure Hdr where
  type : UInt32
  len : UInt16
  flags : UInt16
  peerid : UInt32
  pid : UInt32
  deriving DecidableEq, Repr

namespace Hdr

def encode (h : Hdr) : List Byte :=
  toLittleEndian 4 h.type.toNat ++ toLittleEndian 2 h.len.toNat ++
    toLittleEndian 2 h.flags.toNat ++ toLittleEndian 4 h.peerid.toNat ++
    toLittleEndian 4 h.pid.toNat

/-- `memcpy(&imsg->hdr, ibuf->r.buf, sizeof(imsg->hdr))`. -/
def decode (b : List Byte) : Hdr where
  type := .ofNat (ofLittleEndian (b.take 4))
  len := .ofNat (ofLittleEndian ((b.drop 4).take 2))
  flags := .ofNat (ofLittleEndian ((b.drop 6).take 2))
  peerid := .ofNat (ofLittleEndian ((b.drop 8).take 4))
  pid := .ofNat (ofLittleEndian ((b.drop 12).take 4))

@[simp] theorem encode_length (h : Hdr) : h.encode.length = headerSize := by
  simp [encode, headerSize]

theorem decode_encode_append (h : Hdr) (more : List Byte) : decode (h.encode ++ more) = h := by
  have htype : h.type.toNat < 2 ^ 32 := h.type.toNat_lt
  have hlen : h.len.toNat < 2 ^ 16 := h.len.toNat_lt
  have hflags : h.flags.toNat < 2 ^ 16 := h.flags.toNat_lt
  have hpeerid : h.peerid.toNat < 2 ^ 32 := h.peerid.toNat_lt
  have hpid : h.pid.toNat < 2 ^ 32 := h.pid.toNat_lt
  simp only [decode, encode, List.append_assoc]
  simp only [List.take_append, List.drop_append, toLittleEndian_length, List.take_of_length_le,
    List.drop_eq_nil_of_le, List.nil_append, Nat.reduceSub, Nat.reduceLeDiff, le_refl,
    List.take_zero, List.append_nil, List.drop_zero, ofLittleEndian_toLittleEndian,
    Nat.reducePow]
  cases h
  simp_all [Nat.mod_eq_of_lt]

theorem decode_append (a b : List Byte) (h : headerSize ≤ a.length) :
    decode (a ++ b) = decode a := by
  unfold headerSize at h
  simp only [decode, Hdr.mk.injEq]
  refine ⟨?_, ?_, ?_, ?_, ?_⟩ <;> congr 2
  all_goals
    first
    | rw [List.take_append_of_le_length (by omega)]
    | rw [List.drop_append_of_le_length (by omega),
        List.take_append_of_le_length (by rw [List.length_drop]; omega)]

end Hdr

/-- The wire format. `Framing.next` makes the tests of `imsg_get` in its order:
a header must be there, the announced length must lie between the header size and
`MAX_IMSGSIZE`, and the whole message must be there. -/
def format : Framing.Format Byte where
  header := headerSize
  limit := maxImsgSize
  size := fun b => (Hdr.decode b).len.toNat
  header_pos := by decide
  size_append := fun a b h => by rw [Hdr.decode_append a b h]

end Imsg

/-- `struct imsg`. -/
structure Imsg where
  hdr : Imsg.Hdr
  data : List Byte
  deriving DecidableEq, Repr

namespace Imsg

/-- The bytes of a message on the wire. -/
def encode (m : Imsg) : List Byte := m.hdr.encode ++ m.data

/-- The message `imsg_get` builds from the bytes of one frame. -/
def ofFrame (b : List Byte) : Imsg := ⟨Hdr.decode b, b.drop headerSize⟩

/-- A message that `imsg_compose` can produce: the header states the true length,
which is at most `MAX_IMSGSIZE`. -/
def WellFormed (m : Imsg) : Prop :=
  m.hdr.len.toNat = headerSize + m.data.length ∧ headerSize + m.data.length ≤ maxImsgSize

instance (m : Imsg) : Decidable m.WellFormed := inferInstanceAs (Decidable (_ ∧ _))

@[simp] theorem encode_length (m : Imsg) : m.encode.length = headerSize + m.data.length := by
  simp [encode]

@[simp] theorem ofFrame_encode (m : Imsg) : ofFrame m.encode = m := by
  rw [ofFrame, encode, Hdr.decode_encode_append, ← Hdr.encode_length m.hdr, List.drop_left]

theorem WellFormed.isFrame {m : Imsg} (h : m.WellFormed) : Framing.IsFrame format m.encode := by
  have hsize : format.size m.encode = m.encode.length := by
    change (Hdr.decode (m.hdr.encode ++ m.data)).len.toNat = _
    rw [Hdr.decode_encode_append, encode_length, h.1]
  have hheader : format.header = headerSize := rfl
  have hlimit : format.limit = maxImsgSize := rfl
  have hmax := h.2
  have hlen := encode_length m
  rw [Framing.IsFrame, Framing.next, hsize, if_neg (by omega), if_neg (by omega),
    if_neg (by omega), List.take_length, List.drop_length]

theorem wellFormed_ofFrame {b : List Byte} (h : Framing.IsFrame format b) :
    (ofFrame b).WellFormed := by
  obtain ⟨-, hbody, hsize, hlimit, -⟩ := Framing.next_frame h
  have hheader : format.header = headerSize := rfl
  have hmax : format.limit = maxImsgSize := rfl
  have hlen : format.size b = (Hdr.decode b).len.toNat := rfl
  refine ⟨?_, ?_⟩
  · change (Hdr.decode b).len.toNat = headerSize + (b.drop headerSize).length
    rw [List.length_drop]
    omega
  · change headerSize + (b.drop headerSize).length ≤ maxImsgSize
    rw [List.length_drop]
    omega

/-- The messages that are completely contained in a byte stream, up to the first
header that announces an impossible length. -/
def received (stream : List Byte) : List Imsg := (Framing.drain format stream).1.map ofFrame

/-- A message stream on the wire. -/
def wire (ms : List Imsg) : List Byte := (ms.map encode).flatten

theorem drain_wire_append {ms : List Imsg} (h : ∀ m ∈ ms, m.WellFormed) (tail : List Byte) :
    Framing.drain format (wire ms ++ tail) =
      (ms.map encode ++ (Framing.drain format tail).1, (Framing.drain format tail).2) := by
  apply Framing.drain_flatten_append
  intro body hbody
  obtain ⟨m, hm, rfl⟩ := List.mem_map.mp hbody
  exact (h m hm).isFrame

/-- Bytes sent as messages are received as these messages; a last message that is
only partly there does not count. -/
theorem received_wire_append {ms : List Imsg} (h : ∀ m ∈ ms, m.WellFormed) {tail : List Byte}
    (htail : Framing.next format tail = .incomplete) : received (wire ms ++ tail) = ms := by
  rw [received, drain_wire_append h, Framing.drain_of_incomplete htail, List.append_nil,
    List.map_map]
  simp [Function.comp_def]

end Imsg

/-! ## Buffers -/

/-- `struct imsgbuf`: the bytes read and not yet taken out as messages, and for
each queued message the bytes not yet written. -/
structure Imsgbuf where
  fd : Nat
  pid : UInt32
  r : List Byte
  w : List (List Byte)
  deriving DecidableEq, Repr

/-- What `recvmsg` can answer. -/
inductive Recv
  | bytes (b : List Byte)
  | closed
  | again
  | failed
  deriving DecidableEq, Repr

/-- What `sendmsg` can answer. -/
inductive Send
  | bytes (n : Nat)
  | closed
  | again
  | failed
  deriving DecidableEq, Repr

namespace Imsgbuf

/-- `imsg_init`. -/
def init (fd : Nat) (pid : UInt32) : Imsgbuf := ⟨fd, pid, [], []⟩

/-- `imsg_read`: the buffer and the return value. -/
def imsgRead (b : Imsgbuf) : Recv → Imsgbuf × Int
  | .bytes bs => ({ b with r := b.r ++ bs }, bs.length)
  | .closed => (b, 0)
  | .again => (b, -2)
  | .failed => (b, -1)

/-- `msgbuf_drain`: forget `n` written bytes. -/
def msgbufDrain : List (List Byte) → Nat → List (List Byte)
  | [], _ => []
  | b :: bs, n =>
      if n = 0 then b :: bs
      else if b.length ≤ n then msgbufDrain bs (n - b.length)
      else b.drop n :: bs

/-- `msgbuf_write`: the buffer and the return value. A full socket is no error. -/
def msgbufWrite (b : Imsgbuf) : Send → Imsgbuf × Int
  | .bytes n => if n = 0 then (b, -2) else ({ b with w := msgbufDrain b.w n }, 0)
  | .closed => (b, -2)
  | .again => (b, 0)
  | .failed => (b, -1)

/-- `imsg_compose` with descriptor `-1`. A payload that does not fit is refused. -/
def imsgCompose (b : Imsgbuf) (type : UInt32) (peerid pid : UInt32) (data : List Byte) :
    Option Imsgbuf :=
  if Imsg.headerSize + data.length ≤ Imsg.maxImsgSize then
    let hdr : Imsg.Hdr :=
      { type, len := .ofNat (Imsg.headerSize + data.length), flags := 0, peerid,
        pid := if pid = 0 then b.pid else pid }
    some { b with w := b.w ++ [(Imsg.mk hdr data).encode] }
  else none

/-- The kernel never hands over more than the space left in the read buffer, and
an answer that carries data carries at least one byte. -/
def Fits (b : Imsgbuf) : Recv → Prop
  | .bytes bs => bs ≠ [] ∧ b.r.length + bs.length ≤ Imsg.readSize
  | _ => True

instance (b : Imsgbuf) : (o : Recv) → Decidable (b.Fits o)
  | .bytes _ => inferInstanceAs (Decidable (_ ∧ _))
  | .closed | .again | .failed => isTrue trivial

end Imsgbuf

/-- The conditions libevent reports, or is asked to report. -/
structure Events where
  read : Bool
  write : Bool
  deriving DecidableEq, Repr

/-- `struct imsgev` without the handler: a buffer and the events waited for. -/
structure Imsgev where
  ibuf : Imsgbuf
  events : Events
  deriving DecidableEq, Repr

namespace Imsgev

/-- The initial state of a connection: it waits for data. -/
def init (fd : Nat) (pid : UInt32) : Imsgev := ⟨.init fd pid, ⟨true, false⟩⟩

/-- `imsg_event_add`: wait for data, and for room while messages are queued. -/
def imsgEventAdd (iev : Imsgev) : Imsgev :=
  { iev with events := ⟨true, !iev.ibuf.w.isEmpty⟩ }

/-- `imsg_compose_event`. -/
def imsgComposeEvent (iev : Imsgev) (type : UInt16) (peerid pid : UInt32) (data : List Byte) :
    Imsgev :=
  match iev.ibuf.imsgCompose type.toUInt32 peerid pid data with
  | some ibuf => imsgEventAdd { iev with ibuf }
  | none => iev

/-- The events libevent reports to the handler of a ready descriptor. -/
def reported (iev : Imsgev) (ready : Events) : Events :=
  ⟨iev.events.read && ready.read, iev.events.write && ready.write⟩

end Imsgev

end Ifconfigd
