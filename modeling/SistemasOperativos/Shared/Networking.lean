import SistemasOperativos.Library.Arrivals
import SistemasOperativos.Shared.Stream
import Mathlib.Data.Int.Notation

/-!
# Packets on a socket

Sending and receiving packets (`shared/src/networking.c`).  A packet goes out as its header, the
length of its payload and the payload, in three calls of `socket_send`; `send` may accept a part
of what it is offered, and `recv` may deliver a part of what it is asked for.
-/

namespace SistemasOperativos

/-! ## Packets -/

/-- `t_stream_buffer`, with `malloc_size` bytes in `stream`. -/
structure StreamBuffer where
  offset : Word
  stream : Bytes
  offset_le : offset.toNat ≤ stream.length
deriving DecidableEq, Repr

/-- `t_packet`. -/
structure Packet where
  header : UInt8
  payload : StreamBuffer
deriving DecidableEq, Repr

/-- The bytes up to the offset, which are those sent. -/
def StreamBuffer.contents (buffer : StreamBuffer) : Bytes :=
  buffer.stream.take buffer.offset.toNat

/-- The bytes of a packet on the socket. -/
def Packet.wire (packet : Packet) : Bytes :=
  packet.header :: (packet.payload.offset.bytes ++ packet.payload.contents)

/-! ## Sending -/

/-- What a call of `send` gives: the number of bytes it accepts, less one, or no bytes, or an
error. -/
inductive SendOutcome
  | accepted (n : ℕ) | nothing | error
deriving DecidableEq, Repr

/-- The sending end of a socket: what has been accepted so far, in the pieces it was accepted
in, and the number of calls of `send`. -/
structure SendingEnd where
  pieces : List Bytes := []
  calls : ℕ := 0
deriving DecidableEq, Repr

def SendingEnd.stream (socket : SendingEnd) : Bytes :=
  socket.pieces.flatten

/-- The loop of `send_wrapper`.  Each call of `send` that accepts bytes leaves fewer to send, so
the loop ends within `fuel` calls when `fuel` is the number of bytes. -/
def sendLoop (outcomes : ℕ → SendOutcome) : ℕ → Bytes → SendingEnd → ℤ × SendingEnd
  | _, [], socket => (1, socket)
  | 0, _ :: _, socket => (1, socket)
  | fuel + 1, buffer, socket =>
      let called := { socket with calls := socket.calls + 1 }
      match outcomes socket.calls with
      | .accepted n =>
          sendLoop outcomes fuel (buffer.drop (n + 1))
            { called with pieces := socket.pieces ++ [buffer.take (n + 1)] }
      | .nothing => (0, called)
      | .error => (-1, called)

/-- `send_wrapper`. -/
def sendWrapper (outcomes : ℕ → SendOutcome) (buffer : Bytes) (socket : SendingEnd) :
    ℤ × SendingEnd :=
  sendLoop outcomes buffer.length buffer socket

/-- `socket_send`: an error is logged. -/
def socketSend (outcomes : ℕ → SendOutcome) (source : Bytes) (socket : SendingEnd) :
    SendingEnd :=
  (sendWrapper outcomes source socket).2

/-- `socket_send_header`. -/
def socketSendHeader (outcomes : ℕ → SendOutcome) (header : UInt8) (socket : SendingEnd) :
    SendingEnd :=
  socketSend outcomes [header] socket

/-- `socket_send_packet`. -/
def socketSendPacket (outcomes : ℕ → SendOutcome) (socket : SendingEnd) (packet : Packet) :
    SendingEnd :=
  let socket := socketSendHeader outcomes packet.header socket
  let socket := socketSend outcomes packet.payload.offset.bytes socket
  socketSend outcomes packet.payload.contents socket

/-! ## Receiving -/

/-- `receive_wrapper`: it returns 1, 0 at the end of the stream, or -1 after an error. -/
def receiveWrapper (size : ℕ) (arrivals : List (Arrival UInt8)) : Receipt UInt8 :=
  Arrival.receive size arrivals

/-- `socket_receive`. -/
def socketReceive (size : ℕ) (arrivals : List (Arrival UInt8)) :
    Option Bytes × List (Arrival UInt8) :=
  if size = 0 then (some [], arrivals)
  else
    let receipt := receiveWrapper size arrivals
    match receipt.reception with
    | .complete => (some receipt.items, receipt.rest)
    | .ended | .failed => (none, receipt.rest)

/-- `socket_receive_header`.  The result of `socket_receive` is dropped, so after a failure the
header is what the uninitialised local variable held: `garbage`. -/
def socketReceiveHeader (garbage : UInt8) (arrivals : List (Arrival UInt8)) :
    UInt8 × List (Arrival UInt8) :=
  match socketReceive 1 arrivals with
  | (some (header :: _), arrivals) => (header, arrivals)
  | (_, arrivals) => (garbage, arrivals)

/-- `create_packet`, and the payload received into it. -/
def createPacket (header : UInt8) (payload : Bytes) : Packet :=
  ⟨header, ⟨0, payload, Nat.zero_le _⟩⟩

/-- `socket_receive_packet`, `none` for its `NULL`. -/
def socketReceivePacket (garbage : UInt8) (arrivals : List (Arrival UInt8)) :
    Option Packet × List (Arrival UInt8) :=
  let (header, arrivals) := socketReceiveHeader garbage arrivals
  match socketReceive 4 arrivals with
  | (none, arrivals) => (none, arrivals)
  | (some size, arrivals) =>
      match socketReceive (Word.ofBytes size).toNat arrivals with
      | (none, arrivals) => (none, arrivals)
      | (some payload, arrivals) => (some (createPacket header payload), arrivals)

/-! ## One thread sends, one receives -/

section Sending

variable {accepts : ℕ → ℕ}

theorem sendLoop_stream {fuel : ℕ} {buffer : Bytes} (hfuel : buffer.length ≤ fuel)
    (socket : SendingEnd) :
    (sendLoop (fun k => .accepted (accepts k)) fuel buffer socket).1 = 1 ∧
    (sendLoop (fun k => .accepted (accepts k)) fuel buffer socket).2.stream =
      socket.stream ++ buffer := by
  induction fuel generalizing buffer socket with
  | zero =>
      obtain rfl := List.eq_nil_of_length_eq_zero (Nat.le_zero.1 hfuel)
      simp [sendLoop]
  | succ fuel ih =>
      cases buffer with
      | nil => simp [sendLoop]
      | cons byte buffer =>
          have hless : ((byte :: buffer).drop (accepts socket.calls + 1)).length ≤ fuel := by
            simp only [List.length_drop, List.length_cons] at hfuel ⊢
            omega
          obtain ⟨hcode, hstream⟩ := ih hless
            { pieces := socket.pieces ++ [(byte :: buffer).take (accepts socket.calls + 1)]
              calls := socket.calls + 1 }
          refine ⟨hcode, hstream.trans ?_⟩
          simp only [SendingEnd.stream, List.flatten_append, List.flatten_singleton,
            List.append_assoc, List.take_append_drop]

/-- Without errors all bytes are sent, however many each call of `send` accepts. -/
theorem socketSend_stream (source : Bytes) (socket : SendingEnd) :
    (socketSend (fun k => .accepted (accepts k)) source socket).stream =
      socket.stream ++ source :=
  (sendLoop_stream (Nat.le_refl _) socket).2

theorem socketSendPacket_stream (socket : SendingEnd) (packet : Packet) :
    (socketSendPacket (fun k => .accepted (accepts k)) socket packet).stream =
      socket.stream ++ packet.wire := by
  simp only [socketSendPacket, socketSendHeader, socketSend_stream, Packet.wire,
    List.append_assoc, List.nil_append, List.cons_append]

theorem socketSendPackets_stream (packets : List Packet) (socket : SendingEnd) :
    (packets.foldl (socketSendPacket fun k => .accepted (accepts k)) socket).stream =
      socket.stream ++ packets.flatMap Packet.wire := by
  induction packets generalizing socket with
  | nil => exact (List.append_nil _).symm
  | cons packet packets ih =>
      rw [List.foldl_cons, ih, socketSendPacket_stream, List.flatMap_cons, List.append_assoc]

end Sending

theorem StreamBuffer.length_contents (buffer : StreamBuffer) :
    buffer.contents.length = buffer.offset.toNat :=
  List.length_take_of_le buffer.offset_le

end SistemasOperativos
