import SistemasOperativos.Shared.Stream

/-!
# What the kernel reads of a payload

The takers check no length.  Decoding a payload stays inside it, with a terminator in every
string it copies, exactly when the payload begins with a value of the format: sizes and counts
that are there, as many bytes and elements as they say, and a zero byte in each string.
-/

namespace SistemasOperativos

/-- The packets the kernel receives, from consoles, CPU and memory module. -/
inductive KernelPacket
  | newProcess | ioCall | exitCall | interruptDispatch
  | processMemoryReady | processExitReady | processSuspensionReady
deriving DecidableEq, Repr

namespace KernelPacket

/-- What the handler of a packet takes from its payload, for its effect on the offset. -/
def take : KernelPacket → Taker UInt8 Unit
  -- `receive_process`
  | .newProcess => do
      let _ ← streamTakeProcess
      pure ()
  -- `io_op`, `exit_op` and `handle_interruption`
  | .ioCall | .exitCall | .interruptDispatch => do
      let _ ← streamTakePcb
      pure ()
  -- `table_index_success`
  | .processMemoryReady => do
      let _pid ← streamTakeUINT32
      let _level1TableIndex ← streamTakeUINT32
      let _processFrameIndex ← streamTakeUINT32
      pure ()
  -- `exit_process_success`
  | .processExitReady => do
      let _pid ← streamTakeUINT32
      pure ()
  -- `suspension_success`
  | .processSuspensionReady => pure ()

/-- The bytes are a value of the format of the packet. -/
def WellFormed (bytes : Bytes) : KernelPacket → Prop
  | .newProcess => ∃ process, ProcessBytes process bytes
  | .ioCall | .exitCall | .interruptDispatch => ∃ pcb, PcbBytes pcb bytes
  | .processMemoryReady => bytes.length = 12
  | .processExitReady => bytes.length = 4
  | .processSuspensionReady => bytes = []

/-- No copy leaves the payload, and no string is copied without its terminator. -/
def StaysInside (packet : KernelPacket) (payload : Bytes) : Prop :=
  (packet.take ⟨payload, 0⟩).isSome

instance (packet : KernelPacket) (payload : Bytes) : Decidable (packet.StaysInside payload) :=
  inferInstanceAs (Decidable (_ = true))

/-- Taking a value and dropping it. -/
theorem parses_drop {α : Type} {taker : Taker UInt8 α} {L : α → Bytes → Prop}
    (h : Taker.Parses taker L) :
    Taker.Parses (do let _ ← taker; pure ()) fun _ bytes => ∃ a, L a bytes := by
  refine (h.bind fun _ => Taker.parses_pure ()).congr fun _ bytes => ?_
  constructor
  · rintro ⟨a, ha⟩
    exact ⟨a, bytes, [], (List.append_nil _).symm, ha, rfl, rfl⟩
  · rintro ⟨a, first, _, rfl, ha, -, rfl⟩
    exact ⟨a, by simpa using ha⟩

theorem exists_wordBytes {bytes : Bytes} : (∃ value, WordBytes value bytes) ↔ bytes.length = 4 :=
  ⟨fun ⟨_, hlength, _⟩ => hlength, fun hlength => ⟨_, hlength, rfl⟩⟩

/-- The handlers take the values of the format and no others. -/
theorem parses_take (packet : KernelPacket) :
    Taker.Parses packet.take fun _ bytes => packet.WellFormed bytes := by
  cases packet with
  | newProcess => exact parses_drop parses_streamTakeProcess
  | ioCall | exitCall | interruptDispatch => exact parses_drop parses_streamTakePcb
  | processMemoryReady =>
      refine (parses_streamTakeUINT32.bind fun _ => parses_streamTakeUINT32.bind fun _ =>
        parses_drop parses_streamTakeUINT32).congr fun _ bytes => ?_
      simp only [WellFormed, exists_wordBytes]
      constructor
      · intro hlength
        refine ⟨_, bytes.take 4, bytes.drop 4, (List.take_append_drop 4 bytes).symm,
          ⟨by simp [hlength], rfl⟩, _, (bytes.drop 4).take 4, (bytes.drop 4).drop 4,
          (List.take_append_drop 4 _).symm, ⟨by simp [hlength], rfl⟩, by simp [hlength]⟩
      · rintro ⟨_, first, _, rfl, ⟨hfirst, -⟩, _, second, third, rfl, ⟨hsecond, -⟩, hthird⟩
        simp [hfirst, hsecond, hthird]
  | processExitReady =>
      refine (parses_drop parses_streamTakeUINT32).congr fun _ bytes => ?_
      exact exists_wordBytes.symm
  | processSuspensionReady =>
      exact (Taker.parses_pure ()).congr fun _ bytes => ⟨fun h => ⟨rfl, h⟩, fun h => h.2⟩

/-- Whatever the bytes of the payload, decoding it stays inside exactly if it begins with a
value of the format. -/
theorem staysInside_iff (packet : KernelPacket) (payload : Bytes) :
    packet.StaysInside payload ↔
      ∃ bytes after, payload = bytes ++ after ∧ packet.WellFormed bytes := by
  rw [StaysInside, packet.parses_take.isSome_iff]
  constructor
  · rintro ⟨_, bytes, after, hpayload, hbytes⟩
    exact ⟨bytes, after, hpayload, hbytes⟩
  · rintro ⟨bytes, after, hpayload, hbytes⟩
    exact ⟨(), bytes, after, hpayload, hbytes⟩

/-- A process with a count of instructions that are not there, and one with an id that has no
terminator. -/
theorem not_staysInside :
    ¬ newProcess.StaysInside (Word.bytes 64 ++ Word.bytes 0xffffffff) ∧
    ¬ newProcess.StaysInside
      (Word.bytes 64 ++ Word.bytes 1 ++ Word.bytes 1 ++ ascii ['A'] ++ Word.bytes 0) ∧
    ¬ ∀ (packet : KernelPacket) (payload : Bytes), packet.StaysInside payload := by
  have hcount : ¬ newProcess.StaysInside (Word.bytes 64 ++ Word.bytes 0xffffffff) := by
    decide +kernel
  refine ⟨hcount, by decide +kernel, fun hall => hcount (hall _ _)⟩

end KernelPacket
end SistemasOperativos
