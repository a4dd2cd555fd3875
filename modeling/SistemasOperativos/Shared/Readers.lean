import SistemasOperativos.Library.Machine
import SistemasOperativos.Shared.Networking

/-!
# The loops that read a connection

`packet_handler`, which is the same in the three modules, hands each packet it receives to the
handler of its header; after a failure it tries again (`socket_retry_packet`), and closes the
connection when the tries are used up.  The loops of `header_handler` in the CPU and of
`cpu_handshake_listener` in the memory module read headers without a packet.
-/

namespace SistemasOperativos

/-- One turn of a loop: what the uninitialised header holds, and the flag that the handler
returns if it is called. -/
structure ReaderCall where
  garbage : UInt8
  serve : Bool
deriving DecidableEq, Repr

/-- The bytes of the stream that have arrived in between. -/
def bytesTaken (before after : List (Arrival UInt8)) : Bytes :=
  (Arrival.stream before).take
    ((Arrival.stream before).length - (Arrival.stream after).length)

/-! ## Packets -/

/-- The loop of `packet_handler` between two calls of `socket_receive_packet`. -/
structure PacketReader where
  arrivals : List (Arrival UInt8)
  serve : Bool := true
  /-- `tries`, while `socket_retry_packet` runs. -/
  tries : Option ℕ := none
  /-- The bytes received so far.  History only. -/
  received : Bytes := []
  /-- The packets handed to handlers.  History only. -/
  handed : List Packet := []
  /-- A call has failed after it had received a part of a packet.  History only. -/
  cut : Bool := false
deriving DecidableEq, Repr

/-- One call of `socket_receive_packet`, in `packet_handler` or in `socket_retry_packet`. -/
def PacketReader.step (call : ReaderCall) (s : PacketReader) : Option PacketReader :=
  if s.serve then
    let (packet, arrivals) := socketReceivePacket call.garbage s.arrivals
    let taken := bytesTaken s.arrivals arrivals
    let s := { s with arrivals := arrivals, received := s.received ++ taken }
    match packet with
    | some packet =>
        some { s with serve := call.serve, tries := none, handed := s.handed ++ [packet] }
    | none =>
        let s := { s with cut := s.cut || taken ≠ [] }
        match s.tries with
        | none => some { s with tries := some 0 }
        | some tries =>
            if tries + 1 ≤ 5 then some { s with tries := some (tries + 1) }
            -- no packet after the last try: the connection is closed
            else some { s with serve := false }
  else none

/-- `packet_handler` on a connection. -/
def packetHandler (arrivals : List (Arrival UInt8)) : Machine PacketReader ReaderCall where
  initial := { arrivals := arrivals }
  step := PacketReader.step

/-! ## Headers -/

/-- `MEM_HANDSHAKE`, which is also `INTERRUPT`. -/
def memHandshake : UInt8 := 1

/-- The loop of `header_handler` or `cpu_handshake_listener` between two calls of
`socket_receive_header`. -/
structure HeaderReader where
  arrivals : List (Arrival UInt8)
  serve : Bool := true
  /-- The headers handed to the handler.  History only. -/
  handed : Bytes := []
deriving DecidableEq, Repr

/-- One call of `socket_receive_header`. -/
def HeaderReader.step (call : ReaderCall) (s : HeaderReader) : Option HeaderReader :=
  if s.serve then
    let (header, arrivals) := socketReceiveHeader call.garbage s.arrivals
    let s := { s with arrivals := arrivals }
    if header = memHandshake then
      some { s with serve := call.serve, handed := s.handed ++ [header] }
    else some s
  else none

/-- `header_handler` or `cpu_handshake_listener` on a connection. -/
def headerHandler (arrivals : List (Arrival UInt8)) : Machine HeaderReader ReaderCall where
  initial := { arrivals := arrivals }
  step := HeaderReader.step

end SistemasOperativos
