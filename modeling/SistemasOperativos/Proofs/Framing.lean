import SistemasOperativos.Shared.Networking

/-!
# Packets over a stream

The bytes of packets sent by one thread lie one behind the other, however `send` accepts them,
and `socket_receive_packet` takes a packet back from its bytes, however `recv` delivers them: it
ends exactly behind the packet, so that the next call begins with the next one.
-/

open Arrival

namespace SistemasOperativos

/-- A packet as it is received: the payload has the bytes sent, and its offset is at 0. -/
def Packet.received (packet : Packet) : Packet :=
  createPacket packet.header packet.payload.contents

theorem Packet.received_eq (packet : Packet) :
    packet.received.header = packet.header ∧
    packet.received.payload.stream = packet.payload.contents ∧
    packet.received.payload.offset = 0 :=
  ⟨rfl, rfl, rfl⟩

/-- A reading of `socket_receive` without failures takes the next bytes of the stream. -/
theorem socketReceive_of_steady {size : ℕ} {arrivals : List (Arrival UInt8)} {bytes more : Bytes}
    (hsteady : Steady arrivals) (hstream : stream arrivals = bytes ++ more)
    (hsize : bytes.length = size) :
    ∃ rest, socketReceive size arrivals = (some bytes, rest) ∧ Steady rest ∧
      stream rest = more := by
  unfold socketReceive
  split
  · rename_i hzero
    obtain rfl := List.eq_nil_of_length_eq_zero (hsize.trans hzero)
    exact ⟨arrivals, rfl, hsteady, hstream⟩
  · have hlength : size ≤ (stream arrivals).length := by
      rw [hstream, List.length_append]
      omega
    obtain ⟨hcomplete, hrest⟩ := receive_of_steady hsteady hlength
    obtain ⟨hitems, hleft⟩ := items_receive hcomplete
    rw [hstream, List.take_left' hsize] at hitems
    rw [hstream, List.drop_left' hsize] at hleft
    simp only [receiveWrapper, hcomplete]
    exact ⟨_, by rw [hitems], hrest, hleft⟩

/-- A packet is received from its bytes, and what is behind them is left. -/
theorem socketReceivePacket_of_steady {arrivals : List (Arrival UInt8)} {packet : Packet}
    {more : Bytes} (hsteady : Steady arrivals) (hstream : stream arrivals = packet.wire ++ more)
    (garbage : UInt8) :
    ∃ rest, socketReceivePacket garbage arrivals = (some packet.received, rest) ∧
      Steady rest ∧ stream rest = more := by
  have hheader : stream arrivals =
      [packet.header] ++ (packet.payload.offset.bytes ++ (packet.payload.contents ++ more)) := by
    simp only [hstream, Packet.wire, List.cons_append, List.append_assoc, List.nil_append]
  obtain ⟨rest₁, hreceive₁, hsteady₁, hstream₁⟩ :=
    socketReceive_of_steady hsteady hheader (rfl : _ = 1)
  obtain ⟨rest₂, hreceive₂, hsteady₂, hstream₂⟩ :=
    socketReceive_of_steady hsteady₁ hstream₁ (rfl : _ = 4)
  obtain ⟨rest₃, hreceive₃, hsteady₃, hstream₃⟩ :=
    socketReceive_of_steady hsteady₂ hstream₂ packet.payload.length_contents
  refine ⟨rest₃, ?_, hsteady₃, hstream₃⟩
  simp only [socketReceivePacket, socketReceiveHeader, hreceive₁, hreceive₂,
    Word.ofBytes_bytes, hreceive₃, Packet.received]

/-- `n` calls of `socket_receive_packet`, each with what its uninitialised header holds. -/
def receivePackets (garbage : ℕ → UInt8) :
    ℕ → List (Arrival UInt8) → List (Option Packet) × List (Arrival UInt8)
  | 0, arrivals => ([], arrivals)
  | n + 1, arrivals =>
      let (packet, arrivals) := socketReceivePacket (garbage n) arrivals
      let (packets, arrivals) := receivePackets garbage n arrivals
      (packet :: packets, arrivals)

theorem receivePackets_of_steady (garbage : ℕ → UInt8) {packets : List Packet}
    {arrivals : List (Arrival UInt8)} {more : Bytes} (hsteady : Steady arrivals)
    (hstream : stream arrivals = packets.flatMap Packet.wire ++ more) :
    ∃ rest, receivePackets garbage packets.length arrivals =
        (packets.map fun packet => some packet.received, rest) ∧
      Steady rest ∧ stream rest = more := by
  induction packets generalizing arrivals with
  | nil => exact ⟨arrivals, rfl, hsteady, hstream⟩
  | cons packet packets ih =>
      rw [List.flatMap_cons, List.append_assoc] at hstream
      obtain ⟨rest, hpacket, hrest, hmore⟩ :=
        socketReceivePacket_of_steady hsteady hstream (garbage packets.length)
      obtain ⟨last, hpackets, hlast, hend⟩ := ih hrest hmore
      refine ⟨last, ?_, hlast, hend⟩
      simp only [List.length_cons, receivePackets, hpacket, hpackets, List.map_cons]

/-- However `send` accepts and `recv` delivers the bytes of the packets one thread sends, as many
calls of `socket_receive_packet` give these packets, in order, with their headers and payloads and
the offset at 0, and nothing is left. -/
theorem packets_received (accepts : ℕ → ℕ) (packets : List Packet) (garbage : ℕ → UInt8)
    {arrivals : List (Arrival UInt8)} (hsteady : Steady arrivals)
    (hstream : stream arrivals =
      (packets.foldl (socketSendPacket fun k => .accepted (accepts k)) {}).stream) :
    ∃ received rest, receivePackets garbage packets.length arrivals =
        (received.map some, rest) ∧ stream rest = [] ∧
      List.Forall₂ (fun sent got => got.header = sent.header ∧
        got.payload.stream = sent.payload.contents ∧ got.payload.offset = 0) packets received := by
  have hwire : stream arrivals = packets.flatMap Packet.wire ++ [] := by
    rw [hstream, socketSendPackets_stream, List.append_nil]
    rfl
  obtain ⟨rest, hreceive, -, hrest⟩ := receivePackets_of_steady garbage hsteady hwire
  refine ⟨packets.map Packet.received, rest, by rw [hreceive, List.map_map]; rfl, hrest, ?_⟩
  exact List.forall₂_map_right_iff.2 (List.forall₂_same.2 fun packet _ => packet.received_eq)

/-- Two packets, the second without payload, sent byte by byte and delivered in two pieces cut
inside the length of the first. -/
theorem packets_received_small :
    let packets := [createPacket 5 [], ⟨2, ⟨1, [9, 0], by decide⟩⟩]
    ∃ received rest, receivePackets (fun _ => 1) 2
        [.piece 5 [0, 0], .piece 0 [0, 2, 1, 0, 0, 0, 9]] = (received.map some, rest) ∧
      stream rest = [] ∧
      List.Forall₂ (fun sent got => got.header = sent.header ∧
        got.payload.stream = sent.payload.contents ∧ got.payload.offset = 0) packets received :=
  packets_received (fun _ => 0) [createPacket 5 [], ⟨2, ⟨1, [9, 0], by decide⟩⟩] (fun _ => 1)
    (by simp [Steady]) (by decide +kernel)

end SistemasOperativos
