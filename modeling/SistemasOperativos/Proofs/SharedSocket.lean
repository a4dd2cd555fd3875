import SistemasOperativos.Kernel.MemorySocket
import SistemasOperativos.Proofs.Framing
import Mathlib.Data.List.Permutation

/-!
# Three senders on one socket

What the memory module receives is a concatenation of whole packets as long as no thread begins
a packet while another is in the middle of one.
-/

open Arrival

namespace SistemasOperativos
namespace MemorySocket

variable {s s' : MemorySocket}

/-- The bytes of messages, whole and one behind the other. -/
def wires (messages : List Message) : Bytes :=
  messages.flatMap fun message => message.packet.wire

/-- The stream is whole packets, each finished packet once, up to what has been sent of a packet
in progress; and `socket_receive_packet` receives them, however the stream is delivered. -/
def Unmixed (s : MemorySocket) : Prop :=
  ∃ packets part, packets.Perm s.finished ∧ s.stream = wires packets ++ part ∧
    (part = [] ∨ ∃ sender message pieces, s.sending sender = some (message, pieces) ∧
      part ++ pieces.flatten = message.packet.wire) ∧
    (s.Idle → part = []) ∧
    ∀ garbage arrivals, Steady arrivals → Arrival.stream arrivals = s.stream →
      ∃ rest, receivePackets garbage packets.length arrivals =
        (packets.map fun message => some message.packet.received, rest) ∧ Arrival.stream rest = part

/-- A thread begins a packet only when no thread is in the middle of one. -/
def OneAtATime (action : SocketAction) (s : MemorySocket) : Prop :=
  match action with
  | .header _ _ => s.Idle
  | .next _ => True

instance (s : MemorySocket) : Decidable s.Idle :=
  decidable_of_iff (∀ sender ∈ [MemorySender.toReady, .exitProcess, .ioListener],
      s.sending sender = none)
    ⟨fun h sender => h sender (by cases sender <;> decide), fun h sender _ => h sender⟩

instance (action : SocketAction) (s : MemorySocket) : Decidable (OneAtATime action s) := by
  unfold OneAtATime
  split <;> infer_instance

/-- The packets finished, and what has been sent of the one in progress. -/
def InTurn (s : MemorySocket) : Prop :=
  s.Idle ∧ s.stream = wires s.finished ∨
  ∃ sender message pieces part, s.sending sender = some (message, pieces) ∧
    (∀ other, other ≠ sender → s.sending other = none) ∧
    s.stream = wires s.finished ++ part ∧ part ++ pieces.flatten = message.packet.wire

theorem wires_concat (messages : List Message) (message : Message) :
    wires (messages ++ [message]) = wires messages ++ message.packet.wire := by
  simp [wires]

theorem step_inTurn {action : SocketAction} (h : step action s = some s')
    (hguard : OneAtATime action s) (hs : s.InTurn) : s'.InTurn := by
  cases action with
  | header sender message =>
      have hidle : s.Idle := hguard
      have hstream : s.stream = wires s.finished := by
        rcases hs with ⟨-, hstream⟩ | ⟨sender', message', pieces, part, hsending, -⟩
        · exact hstream
        · simp [hidle sender'] at hsending
      simp only [step, hidle sender] at h
      split at h <;> cases h
      refine .inr ⟨sender, message, _, [message.packet.header], if_pos rfl, fun other hne => ?_,
        by rw [hstream], ?_⟩
      · exact (if_neg hne).trans (hidle other)
      · simp [Packet.wire]
  | next sender =>
      rcases hs with ⟨hidle, -⟩ | ⟨sender', message', pieces', part, hsending, hothers, hstream,
        hpart⟩
      · simp [step, hidle sender] at h
      · obtain rfl : sender = sender' := by
          by_contra hne
          simp [step, hothers sender hne] at h
        simp only [step, hsending] at h
        split at h
        · cases h
        · cases h
        · rename_i last heq
          cases h
          cases heq
          refine .inl ⟨fun other => ?_, ?_⟩
          · by_cases hother : other = sender
            · exact if_pos hother
            · exact (if_neg hother).trans (hothers other hother)
          · rw [wires_concat, hstream, ← hpart]
            simp
        · rename_i piece rest hne heq
          cases h
          cases heq
          refine .inr ⟨sender, message', rest, part ++ piece, if_pos rfl, fun other hother => ?_,
            by rw [hstream, List.append_assoc], by rw [← hpart]; simp⟩
          exact (if_neg hother).trans (hothers other hother)

/-- In every run in which no thread begins a packet while another is in the middle of one, the
memory module receives the packets whole. -/
theorem unmixed (hs : memorySocket.ReachableBy OneAtATime s) : s.Unmixed := by
  have hinTurn : s.InTurn := by
    refine hs.invariant ?initial ?step
    case initial => exact .inl ⟨fun _ => rfl, rfl⟩
    case step => exact fun _ _ _ hguard hs h => step_inTurn h hguard hs
  have hreceive : ∀ part, s.stream = wires s.finished ++ part → ∀ garbage arrivals,
      Steady arrivals → Arrival.stream arrivals = s.stream → ∃ rest,
        receivePackets garbage s.finished.length arrivals =
          (s.finished.map fun message => some message.packet.received, rest) ∧
        Arrival.stream rest = part := by
    intro part hstream garbage arrivals hsteady harrivals
    have hwire : Arrival.stream arrivals = (s.finished.map Message.packet).flatMap Packet.wire ++ part := by
      rw [harrivals, hstream, wires, List.flatMap_map]
    obtain ⟨rest, hreceive, -, hrest⟩ := receivePackets_of_steady garbage hsteady hwire
    refine ⟨rest, ?_, hrest⟩
    rwa [List.length_map, List.map_map] at hreceive
  rcases hinTurn with ⟨-, hstream⟩ | ⟨sender, message, pieces, part, hsending, -, hstream, hpart⟩
  · have hstream' : s.stream = wires s.finished ++ [] := by rw [hstream, List.append_nil]
    exact ⟨s.finished, [], .refl _, hstream', .inl rfl, fun _ => rfl, hreceive [] hstream'⟩
  · refine ⟨s.finished, part, .refl _, hstream, .inr ⟨sender, message, pieces, hsending, hpart⟩,
      fun hidle => ?_, hreceive part hstream⟩
    simp [hidle sender] at hsending

/-- Two packets, one after the other. -/
theorem unmixed_small : ∃ s, memorySocket.ReachableBy OneAtATime s ∧
    s.finished = [.processNew 2 64, .processExit 1 0 0] ∧ s.Unmixed := by
  obtain ⟨s, hs, htest⟩ := Machine.exists_reachableBy_of_run memorySocket OneAtATime
    [.header .toReady (.processNew 2 64), .next .toReady, .next .toReady,
      .header .exitProcess (.processExit 1 0 0), .next .exitProcess, .next .exitProcess]
    (fun s => s.finished = [.processNew 2 64, .processExit 1 0 0])
    (by decide +kernel)
  exact ⟨s, hs, by simpa using htest, unmixed hs⟩

/-- The same two, with the header of the second between the header and the length of the first:
the memory module takes a length of 2055 for the first packet. -/
theorem not_unmixed : ∃ s, memorySocket.Reachable s ∧
    s.Idle ∧ s.finished = [.processNew 2 64, .processExit 1 0 0] ∧
    s.stream.take 5 = [0, 7, 8, 0, 0] ∧ ¬ s.Unmixed := by
  obtain ⟨s, hs, htest⟩ := Machine.exists_reachable_of_run memorySocket
    [.header .toReady (.processNew 2 64), .header .exitProcess (.processExit 1 0 0),
      .next .toReady, .next .toReady, .next .exitProcess, .next .exitProcess]
    (fun s => s.Idle ∧ s.finished = [.processNew 2 64, .processExit 1 0 0] ∧
      s.stream.take 5 = [0, 7, 8, 0, 0] ∧
      s.stream ≠ wires [.processNew 2 64, .processExit 1 0 0] ∧
      s.stream ≠ wires [.processExit 1 0 0, .processNew 2 64])
    (by decide +kernel)
  obtain ⟨hidle, hfinished, hbytes, hmixed, hmixed'⟩ := of_decide_eq_true htest
  refine ⟨s, hs, hidle, hfinished, hbytes, ?_⟩
  rintro ⟨packets, part, hperm, hstream, -, hpart, -⟩
  rw [hpart hidle, List.append_nil] at hstream
  rw [hfinished] at hperm
  rcases List.perm_pair.1 hperm with rfl | rfl
  · exact hmixed hstream
  · exact hmixed' hstream

end MemorySocket
end SistemasOperativos
