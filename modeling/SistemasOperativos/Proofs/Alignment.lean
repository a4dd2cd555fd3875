import SistemasOperativos.Proofs.Framing
import SistemasOperativos.Shared.Readers

/-!
# Readers that stay on packet boundaries

A loop that reads a connection hands over what the peer has sent, as long as the failures of
`recv` do not fall inside what it reads.  A failure while a header is received is not noticed,
and after a failure inside a packet the next try begins where the failure left the stream.
-/

open Arrival

namespace SistemasOperativos

/-! ## Fields of a packet -/

theorem socketReceive_stream (size : ℕ) (arrivals : List (Arrival UInt8)) :
    (∃ bytes rest, socketReceive size arrivals = (some bytes, rest) ∧ bytes.length = size ∧
      stream arrivals = bytes ++ stream rest) ∨
    ∃ part rest, socketReceive size arrivals = (none, rest) ∧ part.length < size ∧
      stream arrivals = part ++ stream rest := by
  unfold socketReceive
  split
  · rename_i hzero
    exact .inl ⟨[], arrivals, rfl, hzero.symm, rfl⟩
  · have hstream := (receive_stream size arrivals).symm
    obtain ⟨hcomplete, hless⟩ := length_receive size arrivals
    simp only [receiveWrapper]
    cases hreception : (receive size arrivals).reception with
    | complete => exact .inl ⟨_, _, rfl, hcomplete hreception, hstream⟩
    | ended => exact .inr ⟨_, _, rfl, hless (by simp [hreception]), hstream⟩
    | failed => exact .inr ⟨_, _, rfl, hless (by simp [hreception]), hstream⟩

/-- A field that comes next on the stream is received, or a part of it when the stream fails or
ends before. -/
theorem socketReceive_field {arrivals : List (Arrival UInt8)} {field more : Bytes}
    (h : stream arrivals <+: field ++ more) :
    (∃ rest, socketReceive field.length arrivals = (some field, rest) ∧
      stream arrivals = field ++ stream rest ∧ stream rest <+: more) ∨
    ∃ part rest, socketReceive field.length arrivals = (none, rest) ∧
      stream arrivals = part ++ stream rest ∧ part <+: field ∧ part.length < field.length := by
  rcases socketReceive_stream field.length arrivals with
    ⟨bytes, rest, hreceive, hlength, hstream⟩ | ⟨part, rest, hreceive, hlength, hstream⟩
  · rw [hstream] at h
    have hbytes : bytes = field := by
      refine List.IsPrefix.eq_of_length ?_ hlength
      exact List.prefix_of_prefix_length_le ((List.prefix_append _ _).trans h)
        (List.prefix_append _ _) (Nat.le_of_eq hlength)
    subst hbytes
    exact .inl ⟨rest, hreceive, hstream, (List.prefix_append_right_inj _).1 h⟩
  · rw [hstream] at h
    exact .inr ⟨part, rest, hreceive, hstream, List.prefix_of_prefix_length_le
      ((List.prefix_append _ _).trans h) (List.prefix_append _ _) (Nat.le_of_lt hlength), hlength⟩

/-- The first byte of a piece is a header received. -/
theorem socketReceive_piece (first : UInt8) (others : Bytes) (arrivals : List (Arrival UInt8)) :
    socketReceive 1 (.piece first others :: arrivals) =
      (some [first], putBack others arrivals) := by
  cases others with
  | nil => simp [socketReceive, receiveWrapper, receive, putBack]
  | cons second others => rfl

theorem length_stream_socketReceive (size : ℕ) (arrivals : List (Arrival UInt8)) :
    (stream (socketReceive size arrivals).2).length ≤ (stream arrivals).length := by
  rcases socketReceive_stream size arrivals with
    ⟨bytes, rest, hreceive, -, hstream⟩ | ⟨part, rest, hreceive, -, hstream⟩ <;>
  · rw [hreceive, hstream, List.length_append]
    exact Nat.le_add_left _ _

theorem length_stream_socketReceive_piece (size : ℕ) (first : UInt8) (others : Bytes)
    (arrivals : List (Arrival UInt8)) :
    (stream (socketReceive (size + 1) (.piece first others :: arrivals)).2).length <
      (stream (.piece first others :: arrivals)).length := by
  have hstream := congrArg List.length
    (receive_stream (size + 1) (.piece first others :: arrivals))
  have hitems : 0 < (receive (size + 1) (.piece first others :: arrivals)).items.length := by
    simp only [receive]
    split <;> simp
  rw [List.length_append] at hstream
  unfold socketReceive
  rw [if_neg (Nat.succ_ne_zero _)]
  simp only [receiveWrapper]
  split <;> (dsimp only; omega)

/-! ## Calls for a packet -/

/-- A call that begins with a byte of the next packet receives this packet, or a part of it when
the stream fails or ends before. -/
theorem socketReceivePacket_next {first : UInt8} {others more : Bytes}
    {later : List (Arrival UInt8)} {packet : Packet} (garbage : UInt8)
    (h : stream (.piece first others :: later) <+: packet.wire ++ more) :
    ∃ taken rest, stream (.piece first others :: later) = taken ++ stream rest ∧ taken ≠ [] ∧
      taken <+: packet.wire ∧
      (socketReceivePacket garbage (.piece first others :: later) = (some packet.received, rest) ∧
          taken = packet.wire ∨
        socketReceivePacket garbage (.piece first others :: later) = (none, rest) ∧
          taken ≠ packet.wire) := by
  have hheader := socketReceive_piece first others later
  have hwire : packet.wire ++ more =
      [packet.header] ++ (packet.payload.offset.bytes ++ (packet.payload.contents ++ more)) := by
    simp only [Packet.wire, List.cons_append, List.append_assoc, List.nil_append]
  obtain ⟨hfirst, hrest⟩ : first = packet.header ∧ others ++ stream later <+:
      packet.payload.offset.bytes ++ (packet.payload.contents ++ more) := by
    rw [hwire, stream_cons, items, List.cons_append] at h
    exact List.cons_prefix_cons.1 h
  subst hfirst
  rw [← stream_putBack] at hrest
  have hstream : stream (.piece packet.header others :: later) =
      packet.header :: stream (putBack others later) := by
    rw [stream_putBack, stream_cons, items, List.cons_append]
  -- the length
  rcases socketReceive_field hrest with ⟨rest₂, hsize, hstream₂, hrest₂⟩ |
    ⟨part, rest₂, hsize, hstream₂, hpart, hless⟩
  swap
  · rw [Word.length_bytes] at hsize
    refine ⟨packet.header :: part, rest₂, by rw [hstream, hstream₂]; rfl, by simp, ?_, .inr ⟨?_, ?_⟩⟩
    · exact List.cons_prefix_cons.2 ⟨rfl, hpart.trans (List.prefix_append _ _)⟩
    · simp only [socketReceivePacket, socketReceiveHeader, hheader, hsize]
    · intro heq
      have := congrArg List.length heq
      simp only [Packet.wire, List.length_cons, List.length_append] at this
      omega
  -- the payload
  rw [Word.length_bytes] at hsize
  rcases socketReceive_field hrest₂ with ⟨rest₃, hpayload, hstream₃, -⟩ |
    ⟨part, rest₃, hpayload, hstream₃, hpart, hless⟩
  · rw [packet.payload.length_contents] at hpayload
    refine ⟨packet.wire, rest₃, ?_, by simp [Packet.wire], List.prefix_rfl, .inl ⟨?_, rfl⟩⟩
    · rw [hstream, hstream₂, hstream₃]
      simp only [Packet.wire, List.cons_append, List.append_assoc]
    · simp only [socketReceivePacket, socketReceiveHeader, hheader, hsize, Word.ofBytes_bytes,
        hpayload, Packet.received]
  · rw [packet.payload.length_contents] at hpayload
    refine ⟨packet.header :: (packet.payload.offset.bytes ++ part), rest₃, ?_, by simp, ?_,
      .inr ⟨?_, ?_⟩⟩
    · rw [hstream, hstream₂, hstream₃]
      simp only [List.cons_append, List.append_assoc]
    · exact List.cons_prefix_cons.2 ⟨rfl, (List.prefix_append_right_inj _).2 hpart⟩
    · simp only [socketReceivePacket, socketReceiveHeader, hheader, hsize, Word.ofBytes_bytes,
        hpayload]
    · intro heq
      have := congrArg List.length heq
      simp only [Packet.wire, List.length_cons, List.length_append] at this
      omega

/-- No byte arrives for a call that finds no piece for the header and none for the length. -/
theorem socketReceivePacket_nothing (garbage : UInt8) {arrivals : List (Arrival UInt8)}
    (h : arrivals = [] ∨ arrivals = [.failure] ∨ ∃ later, arrivals = .failure :: .failure :: later) :
    ∃ rest, socketReceivePacket garbage arrivals = (none, rest) ∧ stream arrivals = stream rest := by
  rcases h with rfl | rfl | ⟨later, rfl⟩
  · exact ⟨[], rfl, rfl⟩
  · exact ⟨[], rfl, rfl⟩
  · exact ⟨later, rfl, rfl⟩

theorem length_stream_socketReceivePacket (garbage : UInt8) (arrivals : List (Arrival UInt8)) :
    (stream (socketReceivePacket garbage arrivals).2).length ≤
      (stream (socketReceive 4 (socketReceiveHeader garbage arrivals).2).2).length := by
  simp only [socketReceivePacket]
  rcases socketReceive 4 (socketReceiveHeader garbage arrivals).2 with ⟨_ | size, rest⟩
  · exact Nat.le_refl _
  · have hpayload := length_stream_socketReceive (Word.ofBytes size).toNat rest
    dsimp only
    rcases hreceive : socketReceive (Word.ofBytes size).toNat rest with ⟨_ | payload, last⟩ <;>
    · rw [hreceive] at hpayload
      exact hpayload

/-- When the header fails, what comes next is taken for a length. -/
theorem length_stream_socketReceivePacket_failure (garbage first : UInt8) (others : Bytes)
    (later : List (Arrival UInt8)) :
    (stream (socketReceivePacket garbage (.failure :: .piece first others :: later)).2).length <
      (stream (.failure :: .piece first others :: later)).length :=
  Nat.lt_of_le_of_lt (length_stream_socketReceivePacket _ _)
    (length_stream_socketReceive_piece 3 first others later)

theorem length_stream_socketReceivePacket_piece (garbage first : UInt8) (others : Bytes)
    (later : List (Arrival UInt8)) :
    (stream (socketReceivePacket garbage (.piece first others :: later)).2).length <
      (stream (.piece first others :: later)).length := by
  refine Nat.lt_of_le_of_lt (length_stream_socketReceivePacket _ _)
    (Nat.lt_of_le_of_lt (length_stream_socketReceive _ _) ?_)
  rw [socketReceiveHeader, socketReceive_piece]
  simp [items]

/-- A part of a packet, not the whole, does not end on a packet boundary. -/
theorem boundary_unique {before after before' after' : List Packet} {packet : Packet}
    {part : Bytes} (hsent : before ++ after = before' ++ packet :: after')
    (hbytes : before.flatMap Packet.wire = before'.flatMap Packet.wire ++ part)
    (hpart : part <+: packet.wire) (hne : part ≠ packet.wire) : part = [] := by
  have hlength := congrArg List.length hbytes
  have hless : part.length < packet.wire.length :=
    Nat.lt_of_le_of_ne hpart.length_le fun h => hne (hpart.eq_of_length h)
  rw [List.length_append] at hlength
  rcases List.append_eq_append_iff.1 hsent with ⟨more, rfl, -⟩ | ⟨more, rfl, hmore⟩
  · -- the boundary is not behind the part
    rw [List.flatMap_append, List.length_append] at hlength
    exact List.eq_nil_of_length_eq_zero (by omega)
  · cases more with
    | nil =>
        rw [List.append_nil] at hlength
        exact List.eq_nil_of_length_eq_zero (by omega)
    | cons next more =>
        -- nor behind the packet
        obtain ⟨rfl, -⟩ := List.cons.inj hmore
        simp only [List.flatMap_append, List.flatMap_cons, List.length_append] at hlength
        omega

theorem bytesTaken_eq {before after : List (Arrival UInt8)} {taken : Bytes}
    (h : stream before = taken ++ stream after) : bytesTaken before after = taken := by
  rw [bytesTaken, h, List.length_append, Nat.add_sub_cancel, List.take_left]

/-! ## Runs of `packet_handler` -/

namespace PacketReader

variable {sent : List Packet} {arrivals : List (Arrival UInt8)} {call : ReaderCall}
  {s s' : PacketReader}

/-- A call receives nothing, or a part of the next packet from its header on; and the packet it
hands over is that one, received whole. -/
def Aligned (sent : List Packet) (call : ReaderCall) (s : PacketReader) : Prop :=
  ∃ taken, stream s.arrivals =
      taken ++ stream (socketReceivePacket call.garbage s.arrivals).2 ∧
    (taken = [] ∧ (socketReceivePacket call.garbage s.arrivals).1 = none ∨
      (socketReceive 1 s.arrivals).1 ≠ none ∧
      ∃ before packet after, sent = before ++ packet :: after ∧
        s.received = before.flatMap Packet.wire ∧ taken <+: packet.wire ∧
        ∀ got, (socketReceivePacket call.garbage s.arrivals).1 = some got →
          taken = packet.wire ∧ got = packet.received)

/-- `recv` does not fail for a header when the next bytes come right behind, and no byte comes
any more for the tries after a failure inside a packet. -/
def Undisturbed (_ : ReaderCall) (s : PacketReader) : Prop :=
  match s.arrivals with
  | .piece _ _ :: _ => s.cut = false
  | .failure :: .piece _ _ :: _ => False
  | _ => True

/-- What has been received are whole packets, which have been handed over, and behind them a part
of the next one if a call has failed inside it. -/
def InStep (sent : List Packet) (s : PacketReader) : Prop :=
  s.received ++ stream s.arrivals <+: sent.flatMap Packet.wire ∧
  ∃ before after part, sent = before ++ after ∧ s.received = before.flatMap Packet.wire ++ part ∧
    s.handed = before.map Packet.received ∧
    (s.cut = false ∧ part = [] ∨ s.cut = true ∧ part ≠ [] ∧
      ∃ packet later, after = packet :: later ∧ part <+: packet.wire ∧ part ≠ packet.wire)

/-- The three ways in which no byte arrives for a call, and the two in which one does. -/
theorem arrivals_cases (arrivals : List (Arrival UInt8)) :
    (arrivals = [] ∨ arrivals = [.failure] ∨ ∃ later, arrivals = .failure :: .failure :: later) ∨
    (∃ first others later, arrivals = .piece first others :: later) ∨
    ∃ first others later, arrivals = .failure :: .piece first others :: later := by
  match arrivals with
  | [] => exact .inl (.inl rfl)
  | [.failure] => exact .inl (.inr (.inl rfl))
  | .failure :: .failure :: later => exact .inl (.inr (.inr ⟨later, rfl⟩))
  | .piece first others :: later => exact .inr (.inl ⟨first, others, later, rfl⟩)
  | .failure :: .piece first others :: later => exact .inr (.inr ⟨first, others, later, rfl⟩)

/-- What a call that begins on a packet boundary with a byte of the stream does. -/
theorem next_of_inStep (hs : s.InStep sent) (hcut : s.cut = false) {first : UInt8}
    {others : Bytes} {later : List (Arrival UInt8)}
    (harrivals : s.arrivals = .piece first others :: later) (garbage : UInt8) :
    ∃ before packet after taken rest, sent = before ++ packet :: after ∧
      s.received = before.flatMap Packet.wire ∧ s.handed = before.map Packet.received ∧
      stream s.arrivals = taken ++ stream rest ∧ taken ≠ [] ∧ taken <+: packet.wire ∧
      (socketReceivePacket garbage s.arrivals = (some packet.received, rest) ∧
          taken = packet.wire ∨
        socketReceivePacket garbage s.arrivals = (none, rest) ∧ taken ≠ packet.wire) := by
  obtain ⟨hwhole, before, after, part, hsent, hreceived, hhanded, hpart⟩ := hs
  obtain rfl : part = [] := by
    rcases hpart with ⟨-, h⟩ | ⟨h, -⟩
    · exact h
    · simp [hcut] at h
  rw [List.append_nil] at hreceived
  rw [hreceived, hsent, List.flatMap_append, List.prefix_append_right_inj] at hwhole
  cases after with
  | nil =>
      rw [harrivals] at hwhole
      simp [items] at hwhole
  | cons packet after =>
      rw [harrivals, List.flatMap_cons] at hwhole
      obtain ⟨taken, rest, hstream, hne, htaken, hcall⟩ :=
        socketReceivePacket_next garbage hwhole
      exact ⟨before, packet, after, taken, rest, hsent, hreceived, hhanded, harrivals ▸ hstream,
        hne, htaken, harrivals ▸ hcall⟩

/-- A call in a run without disturbances is aligned exactly when it is not disturbed itself. -/
theorem aligned_iff (hs : s.InStep sent) :
    s.Aligned sent call ↔ s.Undisturbed call := by
  rcases arrivals_cases s.arrivals with
    hnothing | ⟨first, others, later, harrivals⟩ | ⟨first, others, later, harrivals⟩
  · -- nothing arrives
    obtain ⟨rest, hcall, hstream⟩ := socketReceivePacket_nothing call.garbage hnothing
    refine ⟨fun _ => ?_, fun _ => ⟨[], by rw [hcall]; exact hstream, .inl ⟨rfl, by rw [hcall]⟩⟩⟩
    rcases hnothing with h | h | ⟨later, h⟩ <;> simp [Undisturbed, h]
  · have hundisturbed : s.Undisturbed call ↔ s.cut = false := by
      simp only [Undisturbed, harrivals]
    rw [hundisturbed]
    constructor
    · -- inside a packet the call would begin with a byte that is no header
      rintro ⟨taken, hstream, ⟨rfl, hnone⟩ | ⟨-, before, packet, after, hsent, hreceived, -⟩⟩
      · have hless := length_stream_socketReceivePacket_piece call.garbage first others later
        rw [← harrivals, hstream] at hless
        exact absurd hless (Nat.lt_irrefl _)
      · obtain ⟨-, before', after', part, hsent', hreceived', -, hpart⟩ := hs
        rcases hpart with ⟨hcut, -⟩ | ⟨-, hne, packet', later', rfl, hpart, hne'⟩
        · exact hcut
        · exact absurd (boundary_unique (hsent.symm.trans hsent') (hreceived.symm.trans hreceived')
            hpart hne') hne
    · intro hcut
      obtain ⟨before, packet, after, taken, rest, hsent, hreceived, -, hstream, -, htaken, hcall⟩ :=
        next_of_inStep hs hcut harrivals call.garbage
      have hheader : (socketReceive 1 s.arrivals).1 ≠ none := by
        rw [harrivals, socketReceive_piece]
        simp
      rcases hcall with ⟨hcall, rfl⟩ | ⟨hcall, -⟩
      · refine ⟨packet.wire, by rw [hcall]; exact hstream, .inr ⟨hheader, before, packet, after,
          hsent, hreceived, htaken, fun got hgot => ⟨rfl, ?_⟩⟩⟩
        rw [hcall] at hgot
        exact (Option.some.inj hgot).symm
      · refine ⟨taken, by rw [hcall]; exact hstream, .inr ⟨hheader, before, packet, after,
          hsent, hreceived, htaken, fun got hgot => ?_⟩⟩
        simp [hcall] at hgot
  · -- the header fails
    have hundisturbed : ¬ s.Undisturbed call := by simp only [Undisturbed, harrivals, not_false_eq_true]
    refine iff_of_false ?_ hundisturbed
    rintro ⟨taken, hstream, ⟨rfl, -⟩ | ⟨hheader, -⟩⟩
    · have hless := length_stream_socketReceivePacket_failure call.garbage first others later
      rw [← harrivals, hstream] at hless
      exact Nat.lt_irrefl _ hless
    · rw [harrivals] at hheader
      exact hheader rfl

/-- The state after a call that gave a packet. -/
theorem step_of_packet {packet : Packet} {rest : List (Arrival UInt8)}
    (h : s.step call = some s') (hcall : socketReceivePacket call.garbage s.arrivals =
      (some packet, rest)) :
    s'.arrivals = rest ∧ s'.received = s.received ++ bytesTaken s.arrivals rest ∧
      s'.handed = s.handed ++ [packet] ∧ s'.cut = s.cut := by
  unfold step at h
  split at h
  · rw [hcall] at h
    cases h
    exact ⟨rfl, rfl, rfl, rfl⟩
  · cases h

/-- The state after a call that failed, whatever becomes of the tries. -/
theorem step_of_none {rest : List (Arrival UInt8)} (h : s.step call = some s')
    (hcall : socketReceivePacket call.garbage s.arrivals = (none, rest)) :
    s'.arrivals = rest ∧ s'.received = s.received ++ bytesTaken s.arrivals rest ∧
      s'.handed = s.handed ∧ s'.cut = (s.cut || bytesTaken s.arrivals rest ≠ []) := by
  unfold step at h
  split at h
  · rw [hcall] at h
    dsimp only at h
    split at h
    · cases h
      exact ⟨rfl, rfl, rfl, rfl⟩
    · split at h <;>
      · cases h
        exact ⟨rfl, rfl, rfl, rfl⟩
  · cases h

theorem step_inStep (hs : s.InStep sent) (hundisturbed : s.Undisturbed call)
    (h : s.step call = some s') : s'.InStep sent := by
  rcases arrivals_cases s.arrivals with
    hnothing | ⟨first, others, later, harrivals⟩ | ⟨first, others, later, harrivals⟩
  · obtain ⟨rest, hcall, hstream⟩ := socketReceivePacket_nothing call.garbage hnothing
    obtain ⟨hrest, hreceived, hhanded, hcut⟩ := step_of_none h hcall
    have htaken : bytesTaken s.arrivals rest = [] := bytesTaken_eq hstream
    rw [htaken, List.append_nil] at hreceived
    have hcut' : s'.cut = s.cut := by
      rw [hcut, htaken]
      simp
    unfold InStep
    rw [hrest, hreceived, hhanded, hcut', ← hstream]
    exact hs
  · have hcut : s.cut = false := by
      simpa only [Undisturbed, harrivals] using hundisturbed
    obtain ⟨before, packet, after, taken, rest, hsent, hreceived, hhanded, hstream, hne, hpart,
      hcall⟩ := next_of_inStep hs hcut harrivals call.garbage
    have htaken := bytesTaken_eq hstream
    have hwhole : s.received ++ taken ++ stream rest <+: sent.flatMap Packet.wire := by
      rw [List.append_assoc, ← hstream]
      exact hs.1
    rcases hcall with ⟨hcall, rfl⟩ | ⟨hcall, hless⟩
    · obtain ⟨hrest, hreceived', hhanded', hcut'⟩ := step_of_packet h hcall
      rw [htaken] at hreceived'
      refine ⟨by rw [hrest, hreceived']; exact hwhole, before ++ [packet], after, [],
        by rw [hsent]; simp, ?_, ?_, .inl ⟨hcut'.trans hcut, rfl⟩⟩
      · rw [hreceived', hreceived]
        simp
      · rw [hhanded', hhanded]
        simp
    · obtain ⟨hrest, hreceived', hhanded', hcut'⟩ := step_of_none h hcall
      rw [htaken] at hreceived'
      refine ⟨by rw [hrest, hreceived']; exact hwhole, before, packet :: after, taken, hsent,
        by rw [hreceived', hreceived], hhanded'.trans hhanded,
        .inr ⟨?_, hne, packet, after, rfl, hpart, hless⟩⟩
      rw [hcut', htaken]
      simp [hne]
  · simp [Undisturbed, harrivals] at hundisturbed

theorem inStep_reachable (hpeer : stream arrivals <+: sent.flatMap Packet.wire)
    (hs : (packetHandler arrivals).ReachableBy Undisturbed s) : s.InStep sent := by
  refine hs.invariant ?initial ?step
  case initial => exact ⟨hpeer, [], sent, [], rfl, rfl, rfl, .inl ⟨rfl, rfl⟩⟩
  case step => exact fun _ _ _ hundisturbed hs h => step_inStep hs hundisturbed h

end PacketReader

/-! ## Runs of the header loops -/

namespace HeaderReader

variable {arrivals : List (Arrival UInt8)} {call : ReaderCall} {s s' : HeaderReader}

/-- The header a call hands over is the next byte of the stream, and once the stream has ended the
loop stops. -/
def Aligned (call : ReaderCall) (s : HeaderReader) : Prop :=
  ∀ s', s.step call = some s' →
    (∀ header, s'.handed = s.handed ++ [header] →
      stream s.arrivals = header :: stream s'.arrivals) ∧
    (s.arrivals = [] → s'.serve = false)

/-- The stream has not ended, and if `recv` fails the uninitialised header is not the one the
loop waits for. -/
def Undisturbed (call : ReaderCall) (s : HeaderReader) : Prop :=
  match s.arrivals with
  | [] => False
  | .failure :: _ => call.garbage ≠ memHandshake
  | .piece _ _ :: _ => True

/-- The headers of a stream that the loop waits for. -/
def awaited (bytes : Bytes) : Bytes :=
  bytes.filter (· = memHandshake)

/-- The state after a call that gave `header`. -/
theorem step_of_header {header : UInt8} {rest : List (Arrival UInt8)} (hserve : s.serve = true)
    (hcall : socketReceiveHeader call.garbage s.arrivals = (header, rest)) :
    s.step call = some
      { arrivals := rest
        serve := if header = memHandshake then call.serve else true
        handed := s.handed ++ awaited [header] } := by
  unfold step
  rw [if_pos hserve, hcall]
  dsimp only
  by_cases hheader : header = memHandshake
  · simp [hheader, awaited]
  · simp [hheader, awaited, hserve]

theorem socketReceiveHeader_piece (garbage first : UInt8) (others : Bytes)
    (later : List (Arrival UInt8)) :
    socketReceiveHeader garbage (.piece first others :: later) = (first, putBack others later) := by
  rw [socketReceiveHeader, socketReceive_piece]

theorem aligned_iff (hserve : s.serve = true) : s.Aligned call ↔ s.Undisturbed call := by
  unfold Aligned Undisturbed
  match harrivals : s.arrivals with
  | [] =>
      -- what the call hands over, if anything, has not been sent, and the loop goes on
      have hstep : s.step call = some _ := step_of_header hserve
        (by rw [harrivals]; rfl : _ = (call.garbage, []))
      refine iff_of_false (fun h => ?_) (fun h => h)
      obtain ⟨hheader, hstop⟩ := h _ hstep
      by_cases hgarbage : call.garbage = memHandshake
      · simpa using hheader call.garbage (by simp [awaited, hgarbage])
      · simpa [hgarbage] using hstop rfl
  | .failure :: later =>
      have hstep : s.step call = some _ := step_of_header hserve
        (by rw [harrivals]; rfl : _ = (call.garbage, later))
      constructor
      · intro h hgarbage
        have hheader := (h _ hstep).1 call.garbage (by simp [awaited, hgarbage])
        have := congrArg List.length hheader
        simp [items] at this
      · intro hgarbage s' h
        rw [hstep] at h
        cases h
        refine ⟨fun header hheader => ?_, fun h => by cases h⟩
        simp [awaited, hgarbage] at hheader
  | .piece first others :: later =>
      have hstep : s.step call = some _ := step_of_header hserve
        (by rw [harrivals]; exact socketReceiveHeader_piece _ _ _ _ :
          _ = (first, putBack others later))
      refine iff_of_true (fun s' h => ?_) trivial
      rw [hstep] at h
      cases h
      refine ⟨fun header hheader => ?_, fun h => by cases h⟩
      obtain ⟨hfirst, -⟩ : first = header ∧ first = memHandshake := by
        by_cases h : first = memHandshake
        · simpa [awaited, h, eq_comm] using hheader
        · simp [awaited, h] at hheader
      simp [items, hfirst]

/-- The headers awaited, handed over and still to come. -/
theorem awaited_reachable (hs : (headerHandler arrivals).ReachableBy Undisturbed s) :
    s.handed ++ awaited (stream s.arrivals) = awaited (stream arrivals) := by
  refine hs.invariant ?initial ?step
  case initial => rfl
  case step =>
    intro call s s' hundisturbed hs h
    have hserve : s.serve = true := by
      by_contra hserve
      simp [headerHandler, step, hserve] at h
    replace h : s.step call = some s' := h
    rw [← hs]
    unfold Undisturbed at hundisturbed
    match harrivals : s.arrivals with
    | [] => simp [harrivals] at hundisturbed
    | .failure :: later =>
        rw [harrivals] at hundisturbed
        rw [step_of_header hserve (by rw [harrivals]; rfl : _ = (call.garbage, later))] at h
        cases h
        simp [awaited, hundisturbed, items]
    | .piece first others :: later =>
        rw [step_of_header hserve (by rw [harrivals]; exact socketReceiveHeader_piece _ _ _ _ :
          _ = (first, putBack others later))] at h
        cases h
        simp [awaited, items, ← List.filter_append, List.append_assoc]

end HeaderReader

/-! ## What the handlers are given -/

/-- In runs of the loops in which the calls so far have not been disturbed, the handlers have been
given what the peer has sent, in order, and the next call is aligned exactly when it is not
disturbed. -/
theorem aligned_of_undisturbed (sent : List Packet) (arrivals headers : List (Arrival UInt8))
    (hpeer : stream arrivals <+: sent.flatMap Packet.wire) :
    (∀ s, (packetHandler arrivals).ReachableBy PacketReader.Undisturbed s →
      s.handed <+: sent.map Packet.received ∧
      ∀ call, s.serve = true → (s.Aligned sent call ↔ s.Undisturbed call)) ∧
    ∀ s, (headerHandler headers).ReachableBy HeaderReader.Undisturbed s →
      s.handed ++ HeaderReader.awaited (stream s.arrivals) =
        HeaderReader.awaited (stream headers) ∧
      ∀ call, s.serve = true → (s.Aligned call ↔ s.Undisturbed call) := by
  refine ⟨fun s hs => ?_, fun s hs => ⟨HeaderReader.awaited_reachable hs,
    fun call hserve => HeaderReader.aligned_iff hserve⟩⟩
  have hinStep := PacketReader.inStep_reachable hpeer hs
  refine ⟨?_, fun call _ => PacketReader.aligned_iff hinStep⟩
  obtain ⟨-, before, after, part, rfl, -, hhanded, -⟩ := hinStep
  rw [hhanded, List.map_append]
  exact List.prefix_append _ _

instance (call : ReaderCall) (s : PacketReader) : Decidable (s.Undisturbed call) := by
  unfold PacketReader.Undisturbed
  split <;> infer_instance

/-- A packet received in two pieces, and two failures in a row while the header of the next is
received. -/
theorem aligned_small : ∃ s,
    (packetHandler [.piece 5 [0], .piece 0 [0, 0], .failure, .failure, .piece 6 []]).ReachableBy
      PacketReader.Undisturbed s ∧
    s.handed = [createPacket 5 []] ∧ s.tries = some 0 ∧
    s.Aligned [createPacket 5 [], createPacket 6 []] ⟨1, true⟩ := by
  obtain ⟨s, hs, htest⟩ := Machine.exists_reachableBy_of_run
    (packetHandler [.piece 5 [0], .piece 0 [0, 0], .failure, .failure, .piece 6 []])
    PacketReader.Undisturbed [⟨1, true⟩, ⟨1, true⟩]
    (fun s => s.handed = [createPacket 5 []] ∧ s.tries = some 0 ∧ s.serve = true ∧
      s.Undisturbed ⟨1, true⟩)
    (by decide +kernel)
  obtain ⟨hhanded, htries, hserve, hundisturbed⟩ := of_decide_eq_true htest
  have haligned := aligned_of_undisturbed [createPacket 5 [], createPacket 6 []]
    [.piece 5 [0], .piece 0 [0, 0], .failure, .failure, .piece 6 []] [] ⟨[0, 0, 0, 0], by decide⟩
  exact ⟨s, hs, hhanded, htries, ((haligned.1 s hs).2 _ hserve).2 hundisturbed⟩

/-- One failure while the header of the first packet is received, and a packet that nobody has
sent is handed over; the end of the stream, and the loop of the headers hands over a header that
nobody has sent and goes on. -/
theorem not_aligned :
    (∃ s, (packetHandler [.failure, .piece 5 [0, 0, 0, 0, 5, 0, 0, 0, 0]]).Reachable s ∧
      s.handed = [createPacket 3 [0, 5, 0, 0, 0]] ∧
      ¬ s.handed <+: [createPacket 5 [], createPacket 5 []].map Packet.received) ∧
    (∃ s : PacketReader,
      (packetHandler [.failure, .piece 5 [0, 0, 0, 0, 5, 0, 0, 0, 0]]).Reachable s ∧
      s.serve = true ∧ ¬ s.Aligned [createPacket 5 [], createPacket 5 []] ⟨3, true⟩) ∧
    ∃ s : HeaderReader, (headerHandler []).Reachable s ∧ s.handed = [memHandshake] ∧
      s.serve = true ∧ ¬ s.Aligned ⟨memHandshake, true⟩ := by
  refine ⟨?_, ⟨_, .initial, rfl, ?_⟩, ?_⟩
  · obtain ⟨s, hs, htest⟩ := Machine.exists_reachable_of_run
      (packetHandler [.failure, .piece 5 [0, 0, 0, 0, 5, 0, 0, 0, 0]]) [⟨3, true⟩]
      (fun s => s.handed = [createPacket 3 [0, 5, 0, 0, 0]]) (by decide +kernel)
    replace htest := of_decide_eq_true htest
    refine ⟨s, hs, htest, ?_⟩
    rw [htest]
    decide +kernel
  · refine fun h => (PacketReader.aligned_iff ?_).1 h
    exact PacketReader.inStep_reachable (by decide) .initial
  · obtain ⟨s, hs, htest⟩ := Machine.exists_reachable_of_run (headerHandler [])
      [⟨memHandshake, true⟩]
      (fun s => s.handed = [memHandshake] ∧ s.serve = true ∧ s.arrivals = []) (by decide +kernel)
    obtain ⟨hhanded, hserve, harrivals⟩ := of_decide_eq_true htest
    refine ⟨s, hs, hhanded, hserve, fun h => ?_⟩
    have hundisturbed := (HeaderReader.aligned_iff hserve).1 h
    simp [HeaderReader.Undisturbed, harrivals] at hundisturbed

end SistemasOperativos
