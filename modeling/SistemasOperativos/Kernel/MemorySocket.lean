import SistemasOperativos.Library.Machine
import SistemasOperativos.Shared.Messages
import SistemasOperativos.Shared.Networking

/-!
# The socket to the memory module

`to_ready`, `exit_process` and `io_listener` send their requests on `memory_socket`.  Each packet
is three calls of `socket_send`, and no mutex is held over them.
-/

namespace SistemasOperativos

/-- `enum memory_headers`, `enum kernel_headers` and `enum cpu_headers`. -/
def MessageHeader.code : MessageHeader → UInt8
  | .processNew => 0
  | .lvl1Table => 2
  | .lvl2Table => 3
  | .readCall => 4
  | .writeCall => 5
  | .processSuspend => 6
  | .processExit => 7
  | .processMemoryReady => 5
  | .processExitReady => 6
  | .frameToCpu => 2
  | .table2ToCpu => 3
  | .readAnswer => 10

/-- The packet of a message, with its payload in the buffer and the offset behind it. -/
def Message.packet (message : Message) : Packet :=
  ⟨message.header.code, ⟨BitVec.ofNat 32 message.payload.length, message.payload,
    BitVec.toNat_ofNat _ _ ▸ Nat.mod_le _ _⟩⟩

/-- The threads that send on `memory_socket`. -/
inductive MemorySender
  | toReady | exitProcess | ioListener
deriving DecidableEq, Repr

/-- The packets of each thread. -/
def MemorySender.sends : MemorySender → Message → Bool
  | .toReady, .processNew .. => true
  | .exitProcess, .processExit .. => true
  | .ioListener, .processSuspend .. => true
  | _, _ => false

/-- What has gone out, and the packets that threads are in the middle of, with the calls of
`socket_send` still to make. -/
structure MemorySocket where
  stream : Bytes := []
  sending : MemorySender → Option (Message × List Bytes) := fun _ => none
  /-- The packets sent to the end.  History only. -/
  finished : List Message := []

/-- A thread calls `socket_send`: for the header of a packet, or for what comes next of the
packet it is sending. -/
inductive SocketAction
  | header (sender : MemorySender) (message : Message)
  | next (sender : MemorySender)
deriving DecidableEq, Repr

namespace MemorySocket

/-- The thread's packet in the middle of which it is. -/
def setSending (s : MemorySocket) (sender : MemorySender)
    (sending : Option (Message × List Bytes)) : MemorySender → Option (Message × List Bytes) :=
  fun other => if other = sender then sending else s.sending other

/-- One call of `socket_send` inside `socket_send_packet`. -/
def step : SocketAction → MemorySocket → Option MemorySocket
  | .header sender message, s =>
      match s.sending sender with
      | some _ => none
      | none =>
          if sender.sends message then
            let packet := message.packet
            some { s with
              stream := s.stream ++ [packet.header]
              sending := s.setSending sender
                (some (message, [packet.payload.offset.bytes, packet.payload.contents])) }
          else none
  | .next sender, s =>
      match s.sending sender with
      | none | some (_, []) => none
      | some (message, [last]) =>
          some { s with
            stream := s.stream ++ last
            sending := s.setSending sender none
            finished := s.finished ++ [message] }
      | some (message, piece :: rest) =>
          some { s with
            stream := s.stream ++ piece
            sending := s.setSending sender (some (message, rest)) }

/-- No thread is in the middle of a packet. -/
def Idle (s : MemorySocket) : Prop :=
  ∀ sender, s.sending sender = none

end MemorySocket

/-- The socket, connected. -/
def memorySocket : Machine MemorySocket SocketAction where
  initial := {}
  step := MemorySocket.step

end SistemasOperativos
