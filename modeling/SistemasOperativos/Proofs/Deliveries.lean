import SistemasOperativos.Proofs.Conservation
import SistemasOperativos.Proofs.ConsolePackets
import SistemasOperativos.System.Terminals

/-!
# Every console's program arrives, once

However the bytes of a console are cut on their way, and whenever the console ends, its program is
admitted once if all of its packet has arrived, and not at all otherwise; what is admitted is the
program in its file.
-/

open Arrival

namespace SistemasOperativos

/-- What `main` sends is the program in the file and the size given. -/
theorem consoleMain_sends {host : ConsoleHost} {argv : List CString} {process : Process}
    (h : consoleMain host argv = .sends process) :
    ∃ name codePath processSize others file, argv = name :: codePath :: processSize :: others ∧
      host.openFile codePath = some file ∧ process = ⟨atoi processSize, getCode file⟩ := by
  unfold consoleMain at h
  dsimp only at h
  repeat' split at h
  all_goals cases h
  exact ⟨_, _, _, _, _, rfl, ‹_›, rfl⟩

/-- A call takes from the stream what it leaves no longer. -/
theorem PacketReader.step_received {call : ReaderCall} {s s' : PacketReader}
    (h : s.step call = some s') :
    s'.arrivals = (socketReceivePacket call.garbage s.arrivals).2 ∧
      s'.received = s.received ++ bytesTaken s.arrivals s'.arrivals := by
  unfold step at h
  split at h
  · dsimp only at h
    repeat' split at h
    all_goals cases h
    all_goals exact ⟨rfl, rfl⟩
  · cases h

namespace Terminal

variable {terminal : Terminal} {admissions : ℕ}

/-- The encoding of the program fits 32 bits, as long as it may be for the file. -/
def Fits (terminal : Terminal) : Prop :=
  8 + 13 * terminal.file.length < 2 ^ 32

/-- What the console sends in all. -/
def wire (terminal : Terminal) : Bytes :=
  terminal.start.bytes

/-- It sends nothing, or the packet of its program. -/
theorem wire_cases (terminal : Terminal) :
    terminal.wire = [] ∨ terminal.start = .sends terminal.process ∧
      terminal.wire = (processPacket terminal.process).wire := by
  unfold wire
  cases hstart : terminal.start with
  | sends process =>
      obtain ⟨name, codePath, processSize, others, file, hargv, hopen, rfl⟩ :=
        consoleMain_sends hstart
      have hprocess : terminal.process = ⟨atoi processSize, getCode file⟩ := by
        simp [Terminal.process, Terminal.file, hargv, hopen]
      exact .inr ⟨by rw [hprocess], by rw [hprocess]; rfl⟩
  | _ => exact .inl rfl

theorem Fits.encoding_lt (h : terminal.Fits) : terminal.process.encoding.length < 2 ^ 32 :=
  Nat.lt_of_le_of_lt (length_encoding_getCode_le _ _) h

/-- What has become of the bytes of a console whose program has been admitted `admissions` times.
A part of the packet is received only when the console has ended, and then nothing follows. -/
structure Tracked (admissions : ℕ) (terminal : Terminal) : Prop where
  bytes : terminal.reader.received ++ terminal.inFlight ++ terminal.unsent = terminal.wire
  admitted : admissions =
    if terminal.reader.received = terminal.wire ∧ terminal.wire ≠ [] then 1 else 0
  cut : terminal.reader.received = [] ∨ terminal.reader.received = terminal.wire ∨
    terminal.closed = true ∧ terminal.inFlight = []

/-- The console has a program, and all of its packet has been sent and received. -/
def Arrived (terminal : Terminal) : Prop :=
  terminal.start = .sends terminal.process ∧ terminal.unsent = [] ∧ terminal.inFlight = []

theorem Tracked.whole_iff (h : terminal.Tracked admissions) :
    terminal.reader.received = terminal.wire ∧ terminal.wire ≠ [] ↔ terminal.Arrived := by
  obtain ⟨hbytes, -, -⟩ := h
  constructor
  · rintro ⟨hall, hne⟩
    rw [hall, List.append_assoc, List.append_right_eq_self] at hbytes
    obtain ⟨hinFlight, hunsent⟩ := List.append_eq_nil_iff.1 hbytes
    exact ⟨(terminal.wire_cases.resolve_left hne).1, hunsent, hinFlight⟩
  · rintro ⟨hstart, hunsent, hinFlight⟩
    rw [hunsent, hinFlight, List.append_nil, List.append_nil] at hbytes
    refine ⟨hbytes, ?_⟩
    rw [wire, hstart]
    exact List.cons_ne_nil _ _

/-- The call of the thread that finds `arrivals` in flight. -/
def called (terminal : Terminal) (reader : PacketReader) : Terminal :=
  { terminal with reader := reader, inFlight := stream reader.arrivals }

variable {garbage : UInt8} {arrivals : List (Arrival UInt8)} {reader : PacketReader}

/-- A call receives the packet, all of which is in flight, or nothing. -/
theorem Tracked.next (h : terminal.Tracked admissions) (hsteady : Steady arrivals)
    (hstream : stream arrivals = terminal.inFlight) (garbage : UInt8) :
    (∃ rest, socketReceivePacket garbage arrivals =
        (some (processPacket terminal.process).received, rest) ∧ stream rest = [] ∧
      terminal.reader.received = [] ∧ terminal.inFlight = terminal.wire ∧ terminal.wire ≠ []) ∨
    socketReceivePacket garbage arrivals = (none, []) ∧
      (terminal.inFlight = [] ∨
        terminal.reader.received = [] ∧ terminal.inFlight ≠ terminal.wire) := by
  obtain ⟨hbytes, -, hcut⟩ := h
  by_cases hempty : terminal.inFlight = []
  · refine .inr ⟨@socketReceivePacket_of_part _ (processPacket terminal.process) hsteady ?_ ?_
      garbage, .inl hempty⟩
    · rw [hstream, hempty]
      exact List.nil_prefix
    · rw [hstream, hempty]
      exact (List.cons_ne_nil _ _).symm
  have hreceived : terminal.reader.received = [] := by
    rcases hcut with hnone | hall | ⟨-, hnone⟩
    · exact hnone
    · rw [hall, List.append_assoc, List.append_right_eq_self] at hbytes
      exact absurd (List.append_eq_nil_iff.1 hbytes).1 hempty
    · exact absurd hnone hempty
  rw [hreceived, List.nil_append] at hbytes
  have hwire : terminal.wire = (processPacket terminal.process).wire := by
    rcases terminal.wire_cases with hnone | ⟨-, hwire⟩
    · exact absurd (List.append_eq_nil_iff.1 (hbytes.trans hnone)).1 hempty
    · exact hwire
  by_cases hwhole : terminal.inFlight = terminal.wire
  · obtain ⟨rest, hreceive, -, hrest⟩ := socketReceivePacket_of_steady hsteady
      (hstream.trans (hwhole.trans (hwire.trans (List.append_nil _).symm))) garbage
    exact .inl ⟨rest, hreceive, hrest, hreceived, hwhole, hwhole ▸ hempty⟩
  · refine .inr ⟨@socketReceivePacket_of_part _ (processPacket terminal.process) hsteady ?_ ?_
      garbage, .inr ⟨hreceived, hwhole⟩⟩
    · rw [hstream, ← hwire, ← hbytes]
      exact List.prefix_append _ _
    · rw [hstream, ← hwire]
      exact hwhole

/-- Nothing is received, and what was in flight is lost. -/
theorem Tracked.lost (h : terminal.Tracked admissions)
    (hstream : stream arrivals = terminal.inFlight)
    (hreader : PacketReader.step ⟨garbage, true⟩ { terminal.reader with arrivals := arrivals } =
      some reader)
    (hnone : socketReceivePacket garbage arrivals = (none, [])) (hclosed : terminal.closed = true)
    (hlost : terminal.inFlight = [] ∨
      terminal.reader.received = [] ∧ terminal.inFlight ≠ terminal.wire) :
    (terminal.called reader).Tracked admissions := by
  obtain ⟨hbytes, hadmitted, -⟩ := h
  obtain ⟨harrivals, hreceived⟩ := PacketReader.step_received hreader
  have hrest : reader.arrivals = [] := harrivals.trans (by rw [hnone])
  have htaken : reader.received = terminal.reader.received ++ terminal.inFlight := by
    rw [hreceived, hrest, bytesTaken, stream_nil, List.length_nil, Nat.sub_zero, List.take_length,
      hstream]
  refine ⟨?_, ?_, .inr (.inr ⟨hclosed, by rw [called, hrest]; rfl⟩)⟩
  · show reader.received ++ stream reader.arrivals ++ terminal.unsent = terminal.wire
    rw [hrest, htaken, stream_nil, List.append_nil]
    exact hbytes
  · show admissions = if reader.received = terminal.wire ∧ terminal.wire ≠ [] then 1 else 0
    rw [hadmitted, htaken]
    rcases hlost with hempty | ⟨hnil, hne⟩
    · rw [hempty, List.append_nil]
    · rw [hnil, List.nil_append, if_neg fun hwhole => hwhole.2 hwhole.1.symm,
        if_neg fun hwhole => hne hwhole.1]

/-- The packet is received, and nothing is left. -/
theorem Tracked.taken (h : terminal.Tracked admissions)
    (hstream : stream arrivals = terminal.inFlight)
    (hreader : PacketReader.step ⟨garbage, true⟩ { terminal.reader with arrivals := arrivals } =
      some reader)
    {packet : Packet} {rest : List (Arrival UInt8)}
    (hpacket : socketReceivePacket garbage arrivals = (some packet, rest))
    (hrest : stream rest = []) (hnil : terminal.reader.received = [])
    (hwhole : terminal.inFlight = terminal.wire) (hne : terminal.wire ≠ []) :
    (terminal.called reader).Tracked (admissions + 1) := by
  obtain ⟨hbytes, hadmitted, -⟩ := h
  obtain ⟨harrivals, hreceived⟩ := PacketReader.step_received hreader
  have hleft : stream reader.arrivals = [] := by
    rw [harrivals, hpacket]
    exact hrest
  have htaken : reader.received = terminal.wire := by
    rw [hreceived, bytesTaken, hleft, List.length_nil, Nat.sub_zero, List.take_length, hstream,
      hnil, List.nil_append, hwhole]
  have hunsent : terminal.unsent = [] := by
    rwa [hnil, List.nil_append, hwhole, List.append_right_eq_self] at hbytes
  refine ⟨?_, ?_, .inr (.inl htaken)⟩
  · show reader.received ++ stream reader.arrivals ++ terminal.unsent = terminal.wire
    rw [htaken, hleft, hunsent, List.append_nil, List.append_nil]
  · show admissions + 1 = if reader.received = terminal.wire ∧ terminal.wire ≠ [] then 1 else 0
    rw [hadmitted, hnil, if_neg fun hwire => hwire.2 hwire.1.symm, if_pos ⟨htaken, hne⟩]

end Terminal

namespace Terminals

variable {cfg : KernelConfig} {behaviour : MemoryBehaviour} {s s' : Terminals}
  {action : TerminalAction} {i : ℕ}

/-! ## Steps -/

/-- `receive_process` admits what `stream_take_process` gives, or the connection strays. -/
theorem handle_cases {packet : Packet} {blank : Pcb}
    (h : s.handle cfg behaviour i packet blank = some s') :
    (∃ process system, packet.header = newProcess ∧
      (streamTakeProcess ⟨packet.payload.stream, packet.payload.offset.toNat⟩).map Prod.fst =
        some process ∧
      s.system.step cfg behaviour
        (.kernel (.consoleReceive i process.size process.instructions blank)) = some system ∧
      s' = { s with system := system, origins := s.origins ++ [i] }) ∨
    ¬ (packet.header = newProcess ∧
      (streamTakeProcess ⟨packet.payload.stream, packet.payload.offset.toNat⟩).isSome) ∧
      s' = { s with strayed := true } := by
  unfold handle at h
  split at h
  · rename_i hheader
    split at h
    · rename_i hnone
      cases h
      exact .inr ⟨fun hsome => by simp [hnone] at hsome, rfl⟩
    · rename_i process cursor hsome
      obtain ⟨system, hsystem, heq⟩ := Option.bind_eq_some_iff.1 h
      cases heq
      exact .inl ⟨process, system, hheader, by rw [hsome]; rfl, hsystem, rfl⟩
  · rename_i hheader
    cases h
    exact .inr ⟨fun hboth => hheader hboth.1, rfl⟩

/-- The thread of the connection receives a packet and handles it, or finds the end of the
stream. -/
theorem receive_cases {garbage : UInt8} {arrivals : List (Arrival UInt8)} {blank : Pcb}
    (h : s.receive cfg behaviour i garbage arrivals blank = some s') :
    ∃ terminal reader, s.links[i]? = some terminal ∧ Steady arrivals ∧
      stream arrivals = terminal.inFlight ∧
      PacketReader.step ⟨garbage, true⟩ { terminal.reader with arrivals := arrivals } =
        some reader ∧
      ((∃ packet, (socketReceivePacket garbage arrivals).1 = some packet ∧
          ({ s with links := s.links.set i (terminal.called reader) } : Terminals).handle cfg
            behaviour i packet blank = some s') ∨
        (socketReceivePacket garbage arrivals).1 = none ∧ terminal.closed = true ∧
          s' = { s with links := s.links.set i (terminal.called reader) }) := by
  unfold receive at h
  split at h
  · rename_i terminal socket hterminal hconsole
    obtain ⟨⟨hsteady, hstream, -⟩, h⟩ := Option.ite_none_right_eq_some.1 h
    obtain ⟨reader, hreader, h⟩ := Option.bind_eq_some_iff.1 h
    refine ⟨terminal, reader, hterminal, hsteady, hstream, hreader, ?_⟩
    dsimp only at h
    split at h
    · exact .inl ⟨_, ‹_›, h⟩
    · obtain ⟨hclosed, h⟩ := Option.ite_none_right_eq_some.1 h
      cases h
      exact .inr ⟨‹_›, hclosed, rfl⟩
  · cases h

/-- A step moves the system by one of its own, or not at all. -/
theorem step_system (h : s.step cfg behaviour action = some s') :
    s'.system = s.system ∨ ∃ action, s.system.step cfg behaviour action = some s'.system := by
  cases action with
  | connect host argv socket =>
      simp only [step, connect] at h
      split at h
      · cases h
      · obtain ⟨system, hsystem, heq⟩ := Option.bind_eq_some_iff.1 h
        cases heq
        exact .inr ⟨_, hsystem⟩
  | send i n =>
      simp only [step, send] at h
      repeat' split at h
      all_goals cases h
      exact .inl rfl
  | close i =>
      simp only [step, close] at h
      repeat' split at h
      all_goals cases h
      exact .inl rfl
  | receive i garbage arrivals blank =>
      obtain ⟨terminal, reader, -, -, -, -, ⟨packet, -, hhandle⟩ | ⟨-, -, rfl⟩⟩ := receive_cases h
      · rcases handle_cases hhandle with ⟨process, system, -, -, hsystem, rfl⟩ | ⟨-, rfl⟩
        · exact .inr ⟨_, hsystem⟩
        · exact .inl rfl
      · exact .inl rfl
  | system action =>
      obtain ⟨-, h⟩ := Option.ite_none_left_eq_some.1 h
      obtain ⟨system, hsystem, rfl⟩ := Option.map_eq_some_iff.1 h
      exact .inr ⟨action, hsystem⟩

/-- Beside the consoles the system does what it does. -/
theorem system_reachable (hs : (terminals cfg behaviour).Reachable s) :
    (SistemasOperativos.system cfg behaviour).Reachable s.system := by
  refine hs.invariant .initial fun action s s' _ hs h => ?_
  rcases step_system h with heq | ⟨action, hstep⟩
  · exact heq ▸ hs
  · exact hs.next hstep

/-! ## What has been admitted -/

/-- The connection is tracked, and what has been admitted on it is its program. -/
structure Serves (s : Terminals) (i : ℕ) (terminal : Terminal) : Prop where
  tracked : terminal.Tracked (s.origins.count i)
  programs : ∀ t : ℕ, s.origins[t]? = some i →
    s.system.kernel.admitted[t]? = some (getCode terminal.file)

/-- Every process has come on a connection, and every connection serves its console. -/
structure Delivered (s : Terminals) : Prop where
  origins : s.origins.length = s.system.kernel.admitted.length
  known : ∀ i ∈ s.origins, i < s.links.length
  serves : ∀ (i : ℕ) (terminal : Terminal), s.links[i]? = some terminal → terminal.Fits →
    s.Serves i terminal
  straight : (∀ terminal ∈ s.links, terminal.Fits) → s.strayed = false

variable {old new : Terminal}

theorem forall_links_set {P : ℕ → Terminal → Prop} {links : List Terminal}
    (hnew : i < links.length → P i new)
    (hold : ∀ j terminal, links[j]? = some terminal → j ≠ i → P j terminal) :
    ∀ (j : ℕ) (terminal : Terminal), (links.set i new)[j]? = some terminal → P j terminal := by
  intro j terminal hj
  by_cases heq : j = i
  · subst heq
    have hlt : j < links.length := by simpa using (List.getElem?_eq_some_iff.1 hj).1
    rw [List.getElem?_set_self hlt, Option.some.injEq] at hj
    exact hj ▸ hnew hlt
  · rw [List.getElem?_set_ne (Ne.symm heq)] at hj
    exact hold j terminal hj heq

/-- The files of the consoles are those of before. -/
theorem fits_of_set {links : List Terminal} (hat : links[i]? = some old)
    (hfits : new.Fits → old.Fits) (hall : ∀ terminal ∈ links.set i new, terminal.Fits) :
    ∀ terminal ∈ links, terminal.Fits := by
  intro terminal hmem
  obtain ⟨j, hj⟩ := List.getElem?_of_mem hmem
  by_cases heq : j = i
  · subst heq
    obtain rfl : old = terminal := Option.some.inj (hat.symm.trans hj)
    exact hfits (hall new (List.mem_of_getElem?
      (List.getElem?_set_self (List.getElem?_eq_some_iff.1 hat).1)))
  · exact hall terminal (List.mem_of_getElem? ((List.getElem?_set_ne (Ne.symm heq)).trans hj))

/-- A step of one connection, on which nothing is admitted. -/
theorem Delivered.set (hs : s.Delivered) (hat : s.links[i]? = some old)
    (hfile : new.file = old.file) {strayed : Bool}
    (hnew : old.Fits → new.Tracked (s.origins.count i) ∧ strayed = s.strayed) :
    ({ s with links := s.links.set i new, strayed := strayed } : Terminals).Delivered := by
  have hfits : new.Fits → old.Fits := by rw [Terminal.Fits, Terminal.Fits, hfile]; exact id
  refine ⟨hs.origins, ?_, forall_links_set (fun _ hterminal => ⟨?_, ?_⟩) ?_, fun hall => ?_⟩
  · simpa using hs.known
  · exact (hnew (hfits hterminal)).1
  · rw [hfile]
    exact (hs.serves i old hat (hfits hterminal)).programs
  · intro j terminal hj _ hterminal
    obtain ⟨htracked, hprograms⟩ := hs.serves j terminal hj hterminal
    exact ⟨htracked, hprograms⟩
  · have hbefore := fits_of_set hat hfits hall
    exact (hnew (hbefore old (List.mem_of_getElem? hat))).2.trans (hs.straight hbefore)

/-- A step of one connection, on which a program is admitted. -/
theorem Delivered.admit (hs : s.Delivered) (hat : s.links[i]? = some old)
    (hfile : new.file = old.file) {system : System} {instructions : List Instruction}
    (hadmitted : system.kernel.admitted = s.system.kernel.admitted ++ [instructions])
    (hnew : old.Fits → new.Tracked (s.origins.count i + 1) ∧ instructions = getCode old.file) :
    ({ s with
        system := system, links := s.links.set i new, origins := s.origins ++ [i] } :
      Terminals).Delivered := by
  have hfits : new.Fits → old.Fits := by rw [Terminal.Fits, Terminal.Fits, hfile]; exact id
  have hlength := hs.origins
  have hsplit : ∀ t j : ℕ, (s.origins ++ [i])[t]? = some j →
      s.origins[t]? = some j ∨ t = s.origins.length ∧ j = i := by
    intro t j ht
    by_cases hlt : t < s.origins.length
    · exact .inl (by rwa [List.getElem?_append_left hlt] at ht)
    · rw [List.getElem?_append_right (Nat.le_of_not_lt hlt), List.getElem?_singleton] at ht
      split at ht <;> cases ht
      exact .inr ⟨by omega, rfl⟩
  -- an earlier process is still the one it was
  have hbefore : ∀ (t j : ℕ) (terminal : Terminal), s.links[j]? = some terminal → terminal.Fits →
      s.origins[t]? = some j → system.kernel.admitted[t]? = some (getCode terminal.file) := by
    intro t j terminal hj hterminal ht
    have hold := (hs.serves j terminal hj hterminal).programs t ht
    rw [hadmitted, List.getElem?_append_left (List.getElem?_eq_some_iff.1 hold).1, hold]
  refine ⟨?_, fun j hj => ?_, forall_links_set (fun _ hterminal => ⟨?_, fun t ht => ?_⟩) ?_,
    fun hall => hs.straight (fits_of_set hat hfits hall)⟩
  · rw [hadmitted, List.length_append, List.length_append, hlength]
    rfl
  · rw [List.length_set]
    rcases List.mem_append.1 hj with hj | hj
    · exact hs.known j hj
    · rw [List.mem_singleton.1 hj]
      exact (List.getElem?_eq_some_iff.1 hat).1
  · rw [List.count_append, List.count_singleton_self]
    exact (hnew (hfits hterminal)).1
  · rw [hfile]
    rcases hsplit t i ht with hold | ⟨rfl, -⟩
    · exact hbefore t i old hat (hfits hterminal) hold
    · rw [hadmitted, hlength, List.getElem?_concat_length, (hnew (hfits hterminal)).2]
  · intro j terminal hj hne hterminal
    refine ⟨?_, fun t ht => ?_⟩
    · rw [List.count_append, List.count_singleton, if_neg (by simpa using Ne.symm hne)]
      exact (hs.serves j terminal hj hterminal).tracked
    · rcases hsplit t j ht with hold | ⟨-, heq⟩
      · exact hbefore t j terminal hj hterminal hold
      · exact absurd heq hne

/-! ## Runs -/

theorem step_admitted {s s' : System} {action : Action}
    (h : s.step cfg behaviour action = some s') (hreceive : ∀ i size instructions blank,
      action ≠ .kernel (.consoleReceive i size instructions blank)) :
    s'.kernel.admitted = s.kernel.admitted := by
  rcases System.step_cases h with ⟨action, k, rfl, hk, rfl⟩ | ⟨action, c, ports, rfl, -, rfl⟩
  · exact Kernel.step_admitted hk fun i size instructions blank heq =>
      hreceive i size instructions blank (by rw [heq])
  · rfl

theorem step_consoleReceive {s s' : System} {size : Word} {instructions : List Instruction}
    {blank : Pcb} (h : s.step cfg behaviour
      (.kernel (.consoleReceive i size instructions blank)) = some s') :
    s'.kernel.admitted = s.kernel.admitted ++ [instructions] := by
  rcases System.step_cases h with ⟨action, k, heq, hk, rfl⟩ | ⟨action, c, ports, heq, -, rfl⟩
  · cases heq
    unfold Kernel.step at hk
    split at hk
    · cases hk
    obtain ⟨job, -, -, hadmitted, -⟩ := Kernel.consoleReceive_weight hk
    exact hadmitted
  · cases heq

/-- Nothing is admitted, and no connection changes. -/
theorem Delivered.other (hs : s.Delivered) {system : System}
    (hadmitted : system.kernel.admitted = s.system.kernel.admitted) :
    ({ s with system := system } : Terminals).Delivered := by
  refine ⟨by rw [hadmitted]; exact hs.origins, hs.known, fun i terminal hi hfits => ?_,
    hs.straight⟩
  obtain ⟨htracked, hprograms⟩ := hs.serves i terminal hi hfits
  exact ⟨htracked, fun t ht => by rw [hadmitted]; exact hprograms t ht⟩

theorem connect_delivered {host : ConsoleHost} {argv : List CString} {socket : Word}
    (h : s.connect cfg behaviour host argv socket = some s') (hs : s.Delivered) :
    s'.Delivered := by
  unfold connect at h
  split at h
  · cases h
  obtain ⟨system, hsystem, heq⟩ := Option.bind_eq_some_iff.1 h
  cases heq
  have hadmitted := step_admitted hsystem fun _ _ _ _ heq => by cases heq
  refine ⟨by rw [hadmitted]; exact hs.origins, fun i hi => ?_, fun i terminal hi hfits => ?_,
    fun hall => ?_⟩
  · have := hs.known i hi
    rw [List.length_append]
    omega
  · by_cases hlt : i < s.links.length
    · rw [List.getElem?_append_left hlt] at hi
      obtain ⟨htracked, hprograms⟩ := hs.serves i terminal hi hfits
      exact ⟨htracked, fun t ht => by rw [hadmitted]; exact hprograms t ht⟩
    · have hnot : i ∉ s.origins := fun hmem => hlt (hs.known i hmem)
      rw [List.getElem?_append_right (Nat.le_of_not_lt hlt), List.getElem?_singleton] at hi
      split at hi <;> cases hi
      refine ⟨⟨rfl, ?_, .inl rfl⟩, fun t ht => absurd (List.mem_of_getElem? ht) hnot⟩
      rw [List.count_eq_zero.2 hnot, if_neg fun hwire => hwire.2 hwire.1.symm]
  · exact hs.straight fun terminal hmem => hall terminal (List.mem_append_left _ hmem)

theorem send_delivered {n : ℕ} (h : s.send i n = some s') (hs : s.Delivered) : s'.Delivered := by
  unfold send at h
  split at h
  · cases h
  rename_i terminal hat
  obtain ⟨hopen, h⟩ := Option.ite_none_left_eq_some.1 h
  cases h
  refine hs.set hat (by rfl) fun hfits => ⟨?_, rfl⟩
  obtain ⟨hbytes, hadmitted, hcut⟩ := (hs.serves i terminal hat hfits).tracked
  refine ⟨?_, hadmitted, ?_⟩
  · show terminal.reader.received ++ (terminal.inFlight ++ terminal.unsent.take (n + 1)) ++
      terminal.unsent.drop (n + 1) = terminal.wire
    rw [← hbytes]
    simp only [List.append_assoc, List.take_append_drop]
  · rcases hcut with hnone | hall | ⟨hclosed, -⟩
    · exact .inl hnone
    · exact .inr (.inl hall)
    · exact absurd (.inl hclosed) hopen

theorem close_delivered (h : s.close i = some s') (hs : s.Delivered) : s'.Delivered := by
  unfold close at h
  split at h
  · cases h
  rename_i terminal hat
  obtain ⟨hopen, h⟩ := Option.ite_none_left_eq_some.1 h
  cases h
  refine hs.set hat (by rfl) fun hfits => ⟨?_, rfl⟩
  obtain ⟨hbytes, hadmitted, hcut⟩ := (hs.serves i terminal hat hfits).tracked
  refine ⟨hbytes, hadmitted, ?_⟩
  rcases hcut with hnone | hall | ⟨hclosed, -⟩
  · exact .inl hnone
  · exact .inr (.inl hall)
  · exact absurd hclosed hopen

/-- Receiving admits the console's program, if its encoding fits, or admits nothing. -/
theorem Delivered.received {garbage : UInt8} {arrivals : List (Arrival UInt8)} {blank : Pcb}
    (hs : s.Delivered) (h : s.receive cfg behaviour i garbage arrivals blank = some s') :
    ∃ terminal reader, s.links[i]? = some terminal ∧
      ((∃ process system, s.system.step cfg behaviour
            (.kernel (.consoleReceive i process.size process.instructions blank)) = some system ∧
          (terminal.Fits → process = terminal.process ∧
            (terminal.called reader).Tracked (s.origins.count i + 1)) ∧
          s' = { s with
            system := system, links := s.links.set i (terminal.called reader)
            origins := s.origins ++ [i] }) ∨
        ∃ strayed, (terminal.Fits → (terminal.called reader).Tracked (s.origins.count i) ∧
            strayed = s.strayed) ∧
          s' = { s with
            links := s.links.set i (terminal.called reader), strayed := strayed }) := by
  obtain ⟨terminal, reader, hat, hsteady, hstream, hreader, hcase⟩ := receive_cases h
  refine ⟨terminal, reader, hat, ?_⟩
  rcases hcase with ⟨packet, hpacket, hhandle⟩ | ⟨hnone, hclosed, rfl⟩
  · -- where the encoding fits, the packet is the console's, and the first
    have hnext : terminal.Fits → packet = (processPacket terminal.process).received ∧
        (terminal.called reader).Tracked (s.origins.count i + 1) := by
      intro hfits
      have htracked := (hs.serves i terminal hat hfits).tracked
      rcases htracked.next hsteady hstream garbage with
        ⟨rest, hreceive, hrest, hnil, hwhole, hne⟩ | ⟨hreceive, -⟩
      · rw [hreceive, Option.some.injEq] at hpacket
        exact ⟨hpacket.symm, htracked.taken hstream hreader hreceive hrest hnil hwhole hne⟩
      · rw [hreceive] at hpacket
        cases hpacket
    rcases handle_cases hhandle with ⟨process, system, -, htake, hsystem, rfl⟩ | ⟨hstray, rfl⟩
    · refine .inl ⟨process, system, hsystem, fun hfits => ?_, rfl⟩
      obtain ⟨rfl, htracked⟩ := hnext hfits
      have hsame := streamTakeProcess_received (nulFree_getCode terminal.file) hfits.encoding_lt
      exact ⟨Option.some.inj (htake.symm.trans hsame), htracked⟩
    · refine .inr ⟨true, fun hfits => absurd ?_ hstray, rfl⟩
      obtain ⟨rfl, -⟩ := hnext hfits
      have hsame := streamTakeProcess_received (nulFree_getCode terminal.file) hfits.encoding_lt
      exact ⟨rfl, Option.isSome_map.symm.trans (by rw [hsame]; rfl)⟩
  · refine .inr ⟨s.strayed, fun hfits => ⟨?_, rfl⟩, rfl⟩
    have htracked := (hs.serves i terminal hat hfits).tracked
    rcases htracked.next hsteady hstream garbage with
      ⟨rest, hreceive, -⟩ | ⟨hreceive, hlost⟩
    · rw [hreceive] at hnone
      cases hnone
    · exact htracked.lost hstream hreader hreceive hclosed hlost

theorem receive_delivered {garbage : UInt8} {arrivals : List (Arrival UInt8)} {blank : Pcb}
    (h : s.receive cfg behaviour i garbage arrivals blank = some s') (hs : s.Delivered) :
    s'.Delivered := by
  obtain ⟨terminal, reader, hat, hadmitted | hnone⟩ := hs.received h
  · obtain ⟨process, system, hsystem, hfits, rfl⟩ := hadmitted
    refine hs.admit hat (by rfl) (step_consoleReceive hsystem) fun hterminal => ?_
    obtain ⟨rfl, htracked⟩ := hfits hterminal
    exact ⟨htracked, rfl⟩
  · obtain ⟨strayed, hfits, rfl⟩ := hnone
    exact hs.set hat (by rfl) hfits

theorem delivered_of_reachable (hs : (terminals cfg behaviour).Reachable s) : s.Delivered := by
  refine hs.invariant ⟨rfl, nofun, nofun, fun _ => rfl⟩ fun action s s' _ hs h => ?_
  cases action with
  | connect host argv socket => exact connect_delivered h hs
  | send i n => exact send_delivered h hs
  | close i => exact close_delivered h hs
  | receive i garbage arrivals blank => exact receive_delivered h hs
  | system action =>
      obtain ⟨hother, h⟩ := Option.ite_none_left_eq_some.1 h
      obtain ⟨system, hsystem, rfl⟩ := Option.map_eq_some_iff.1 h
      refine hs.other (step_admitted hsystem fun i size instructions blank heq => hother ?_)
      rw [heq]
      rfl

/-- In every run of consoles whose files are short enough for 32-bit lengths, however their bytes
are cut and whenever the consoles end, no packet strays, every process admitted has come from a
console and is the program in its file, and a console's program is admitted at most once, and
exactly when all of its packet has been sent and received. -/
theorem programs_delivered (hs : (terminals cfg behaviour).Reachable s)
    (hfits : ∀ terminal ∈ s.links, terminal.Fits) :
    s.strayed = false ∧ s.origins.length = s.system.kernel.admitted.length ∧
    (∀ t i : ℕ, s.origins[t]? = some i → ∃ terminal, s.links[i]? = some terminal ∧
      s.system.kernel.admitted[t]? = some (getCode terminal.file)) ∧
    ∀ (i : ℕ) (terminal : Terminal), s.links[i]? = some terminal →
      s.origins.count i ≤ 1 ∧ (i ∈ s.origins ↔ terminal.Arrived) := by
  obtain ⟨horigins, hknown, hserves, hstraight⟩ := delivered_of_reachable hs
  refine ⟨hstraight hfits, horigins, fun t i ht => ?_, fun i terminal hi => ?_⟩
  · have hi := List.getElem?_eq_getElem (hknown i (List.mem_of_getElem? ht))
    exact ⟨_, hi, (hserves i _ hi (hfits _ (List.mem_of_getElem? hi))).programs t ht⟩
  · have htracked := (hserves i terminal hi (hfits _ (List.mem_of_getElem? hi))).tracked
    rw [← List.count_pos_iff, ← htracked.whole_iff, htracked.admitted]
    split <;> simp_all

/-- A console is started on a file that holds an EXIT. -/
def exitHost : ConsoleHost where
  configured := true
  connects := true
  openFile _ := some (ascii ['E', 'X', 'I', 'T', '\n'])

/-- `./console code 64`. -/
def exitArgv : List CString :=
  [ascii ['c'], ascii ['c', 'o', 'd', 'e'], ascii ['6', '4']]

/-- `recv` gives the bytes one by one. -/
def byteByByte (bytes : Bytes) : List (Arrival UInt8) :=
  bytes.map fun byte => .piece byte []

/-- A console sends its packet in two parts; the other ends behind its first three bytes. -/
def twoConsoles : List TerminalAction :=
  let bytes := (consoleMain exitHost exitArgv).bytes
  [.connect exitHost exitArgv 7, .send 0 8, .connect exitHost exitArgv 8, .send 1 2,
    .send 0 99, .close 1, .receive 1 9 (byteByByte (bytes.take 3)) default,
    .receive 0 9 (byteByByte bytes) default]

/-- The program of the first is admitted, that of the second is not. -/
theorem programs_delivered_small : ∃ s, (terminals (.small .fifo) inOrder).Reachable s ∧
    s.origins = [0] ∧ s.strayed = false ∧ s.system.kernel.admitted.length = 1 ∧
    ∀ (i : ℕ) (terminal : Terminal), s.links[i]? = some terminal →
      (i ∈ s.origins ↔ terminal.Arrived) := by
  obtain ⟨s, hs, htest⟩ := Machine.exists_reachable_of_run (terminals (.small .fifo) inOrder)
    twoConsoles (fun s => s.origins = [0] ∧
      ∀ terminal ∈ s.links, 8 + 13 * terminal.file.length < 2 ^ 32) (by decide +kernel)
  obtain ⟨horigins, hfits⟩ := of_decide_eq_true htest
  obtain ⟨hstraight, hlength, -, hlinks⟩ := programs_delivered hs hfits
  exact ⟨s, hs, horigins, hstraight, by rw [← hlength, horigins]; rfl,
    fun i terminal hi => (hlinks i terminal hi).2⟩

end Terminals

end SistemasOperativos
