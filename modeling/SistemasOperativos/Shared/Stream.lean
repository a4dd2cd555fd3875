import SistemasOperativos.Library.Taker
import SistemasOperativos.Shared.Pcb

/-!
# Payloads

The encoding of words, strings, lists, processes and PCBs into the payload of a packet, and the
decoding of a payload received (`shared/src/serialization.c`, `shared/src/process_utils.c`,
`shared/src/pcb_utils.c`).

A payload under construction is the list of the bytes added to it.  A payload received is a
buffer of its length, and a copy that leaves it is `none`.  The length fits in 32 bits, so the
offset of a payload never wraps.
-/

namespace SistemasOperativos

abbrev Bytes := List UInt8

/-! ## Words -/

/-- The bytes of a word, lowest first. -/
def Word.bytes (value : Word) : Bytes :=
  [0, 8, 16, 24].map fun i => UInt8.ofBitVec (value.extractLsb' i 8)

/-- The word that four bytes make, lowest first. -/
def Word.ofBytes (bytes : Bytes) : Word :=
  bytes.foldr (fun byte value => value <<< 8 ||| byte.toBitVec.setWidth 32) 0

@[simp] theorem Word.length_bytes (value : Word) : value.bytes.length = 4 := rfl

@[simp] theorem Word.ofBytes_bytes (value : Word) : Word.ofBytes value.bytes = value := by
  refine BitVec.eq_of_getLsbD_eq fun i hi => ?_
  simp only [ofBytes, bytes, List.map_cons, List.map_nil, List.foldr_cons, List.foldr_nil,
    BitVec.getLsbD_or, BitVec.getLsbD_shiftLeft, BitVec.getLsbD_setWidth, BitVec.getLsbD_extractLsb']
  grind

theorem Word.bytes_ofBytes {bytes : Bytes} (h : bytes.length = 4) :
    (Word.ofBytes bytes).bytes = bytes := by
  match bytes, h with
  | [a, b, c, d], _ =>
      have hbyte : ∀ (byte : UInt8) (value : BitVec 8), value = byte.toBitVec →
          UInt8.ofBitVec value = byte := fun _ _ h => h ▸ rfl
      simp only [Word.bytes, List.map_cons, List.map_nil, List.cons.injEq, and_true]
      refine ⟨hbyte _ _ ?_, hbyte _ _ ?_, hbyte _ _ ?_, hbyte _ _ ?_⟩ <;>
      · refine BitVec.eq_of_getLsbD_eq fun i hi => ?_
        simp only [ofBytes, List.foldr_cons, List.foldr_nil, BitVec.getLsbD_extractLsb',
          BitVec.getLsbD_or, BitVec.getLsbD_shiftLeft, BitVec.getLsbD_setWidth]
        grind

/-! ## Encoding -/

/-- `stream_add_UINT32`. -/
def streamAddUINT32 (payload : Bytes) (value : Word) : Bytes :=
  payload ++ value.bytes

/-- `stream_add_STRING`: the string with its terminator, behind their number. -/
def streamAddSTRING (payload : Bytes) (source : CString) : Bytes :=
  let size : Word := BitVec.ofNat 32 source.length + 1
  streamAddUINT32 payload size ++ (source ++ [0]).take size.toNat

/-- `stream_add_LIST`. -/
def streamAddLIST {α : Type} (streamAddElem : Bytes → α → Bytes) (payload : Bytes)
    (source : List α) : Bytes :=
  source.foldl streamAddElem (streamAddUINT32 payload (BitVec.ofNat 32 source.length))

/-- `stream_add_instruction`. -/
def streamAddInstruction (payload : Bytes) (instruction : Instruction) : Bytes :=
  streamAddLIST streamAddUINT32 (streamAddSTRING payload instruction.id) instruction.params

/-- `t_process`. -/
structure Process where
  size : Word
  instructions : List Instruction
deriving DecidableEq, Repr, Inhabited

/-- `stream_add_process`. -/
def streamAddProcess (payload : Bytes) (process : Process) : Bytes :=
  streamAddLIST streamAddInstruction (streamAddUINT32 payload process.size) process.instructions

/-- `stream_add_pcb`. -/
def streamAddPcb (payload : Bytes) (pcb : Pcb) : Bytes :=
  let payload := streamAddUINT32 payload pcb.pid
  let payload := streamAddUINT32 payload pcb.size
  let payload := streamAddUINT32 payload pcb.clientSocket
  let payload := streamAddLIST streamAddInstruction payload pcb.instructions
  let payload := streamAddUINT32 payload pcb.programCounter
  let payload := streamAddUINT32 payload pcb.pageTable
  let payload := streamAddUINT32 payload pcb.processFramesIndex
  let payload := streamAddUINT32 payload pcb.burstEstimation
  let payload := streamAddUINT32 payload pcb.leftBurstEstimation
  let payload := streamAddUINT32 payload pcb.blockedTime
  streamAddUINT32 payload pcb.pendingIoTime

/-! ## Decoding -/

/-- `stream_take_UINT32`. -/
def streamTakeUINT32 : Taker UInt8 Word := do
  let bytes ← Taker.take 4
  pure (Word.ofBytes bytes)

/-- `stream_take_STRING`: as many bytes as the size says. -/
def streamTakeSTRING : Taker UInt8 Bytes := do
  let size ← streamTakeUINT32
  Taker.take size.toNat

/-- `stream_take_LIST`. -/
def streamTakeLIST {α : Type} (streamTakeElem : Taker UInt8 α) : Taker UInt8 (List α) := do
  let size ← streamTakeUINT32
  Taker.times streamTakeElem size.toNat

/-- The C string in a copy of bytes.  Without a terminator in the copy, `string_length` and the
`memcpy` after it leave it. -/
def cString (bytes : Bytes) : Option CString :=
  if 0 ∈ bytes then some (bytes.takeWhile (· ≠ 0)) else none

/-- `stream_take_instruction`. -/
def streamTakeInstruction : Taker UInt8 Instruction := do
  let id ← Taker.refine cString streamTakeSTRING
  let params ← streamTakeLIST streamTakeUINT32
  pure ⟨id, params⟩

/-- `stream_take_process`. -/
def streamTakeProcess : Taker UInt8 Process := do
  let size ← streamTakeUINT32
  let instructions ← streamTakeLIST streamTakeInstruction
  pure ⟨size, instructions⟩

/-- `stream_take_pcb`. -/
def streamTakePcb : Taker UInt8 Pcb := do
  let pid ← streamTakeUINT32
  let size ← streamTakeUINT32
  let clientSocket ← streamTakeUINT32
  let instructions ← streamTakeLIST streamTakeInstruction
  let programCounter ← streamTakeUINT32
  let pageTable ← streamTakeUINT32
  let processFramesIndex ← streamTakeUINT32
  let burstEstimation ← streamTakeUINT32
  let leftBurstEstimation ← streamTakeUINT32
  let blockedTime ← streamTakeUINT32
  let pendingIoTime ← streamTakeUINT32
  pure
    { pid := pid
      size := size
      clientSocket := clientSocket
      instructions := instructions
      programCounter := programCounter
      pageTable := pageTable
      processFramesIndex := processFramesIndex
      burstEstimation := burstEstimation
      blockedTime := blockedTime
      pendingIoTime := pendingIoTime
      leftBurstEstimation := leftBurstEstimation }

/-! ## Languages of the decoders -/

/-- The bytes of a word, as the taker reads them. -/
def WordBytes (value : Word) (bytes : Bytes) : Prop :=
  bytes.length = 4 ∧ value = Word.ofBytes bytes

/-- A size and as many elements. -/
def ListBytes {α : Type} (L : α → Bytes → Prop) (values : List α) (bytes : Bytes) : Prop :=
  ∃ size sizeBytes pieces, bytes = sizeBytes ++ pieces.flatten ∧ WordBytes size sizeBytes ∧
    values.length = size.toNat ∧ List.Forall₂ L values pieces

/-- A size and as many bytes, with a terminator among them. -/
def StringBytes (id : CString) (bytes : Bytes) : Prop :=
  ∃ size sizeBytes raw, bytes = sizeBytes ++ raw ∧ WordBytes size sizeBytes ∧
    raw.length = size.toNat ∧ cString raw = some id

def InstructionBytes (instruction : Instruction) (bytes : Bytes) : Prop :=
  ∃ idBytes paramBytes, bytes = idBytes ++ paramBytes ∧ StringBytes instruction.id idBytes ∧
    ListBytes WordBytes instruction.params paramBytes

theorem parses_streamTakeUINT32 : Taker.Parses streamTakeUINT32 WordBytes := by
  refine ((Taker.parses_take 4).bind fun bytes => Taker.parses_pure (Word.ofBytes bytes)).congr
    fun value bytes => ?_
  constructor
  · rintro ⟨hlength, rfl⟩
    exact ⟨bytes, bytes, [], (List.append_nil _).symm, ⟨rfl, hlength⟩, rfl, rfl⟩
  · rintro ⟨_, first, second, rfl, ⟨rfl, hlength⟩, rfl, rfl⟩
    exact ⟨by simpa using hlength, by simp⟩

theorem parses_streamTakeLIST {α : Type} {taker : Taker UInt8 α} {L : α → Bytes → Prop}
    (h : Taker.Parses taker L) : Taker.Parses (streamTakeLIST taker) (ListBytes L) := by
  refine (parses_streamTakeUINT32.bind fun size => h.times size.toNat).congr fun values bytes => ?_
  constructor
  · rintro ⟨size, sizeBytes, pieces, rfl, hsize, hlength, hpieces⟩
    exact ⟨size, sizeBytes, pieces.flatten, rfl, hsize, hlength, pieces, rfl, hpieces⟩
  · rintro ⟨size, sizeBytes, second, rfl, hsize, hlength, pieces, rfl, hpieces⟩
    exact ⟨size, sizeBytes, pieces, rfl, hsize, hlength, hpieces⟩

theorem parses_streamTakeId :
    Taker.Parses (Taker.refine cString streamTakeSTRING) StringBytes := by
  refine (parses_streamTakeUINT32.bind fun size => Taker.parses_take size.toNat).refine.congr
    fun id bytes => ?_
  constructor
  · rintro ⟨size, sizeBytes, raw, rfl, hsize, hlength, hid⟩
    exact ⟨raw, hid, size, sizeBytes, raw, rfl, hsize, rfl, hlength⟩
  · rintro ⟨raw, hid, size, sizeBytes, second, rfl, hsize, rfl, hlength⟩
    exact ⟨size, sizeBytes, raw, rfl, hsize, hlength, hid⟩

theorem parses_streamTakeInstruction : Taker.Parses streamTakeInstruction InstructionBytes := by
  refine (parses_streamTakeId.bind fun id =>
    (parses_streamTakeLIST parses_streamTakeUINT32).bind fun params =>
      Taker.parses_pure (Instruction.mk id params)).congr fun instruction bytes => ?_
  constructor
  · rintro ⟨idBytes, paramBytes, rfl, hid, hparams⟩
    exact ⟨_, idBytes, paramBytes, rfl, hid, _, paramBytes, [], (List.append_nil _).symm, hparams,
      rfl, rfl⟩
  · rintro ⟨id, idBytes, second, rfl, hid, params, paramBytes, third, rfl, hparams, rfl, rfl⟩
    exact ⟨idBytes, paramBytes, by simp, hid, hparams⟩

def ProcessBytes (process : Process) (bytes : Bytes) : Prop :=
  ∃ sizeBytes instructionBytes, bytes = sizeBytes ++ instructionBytes ∧
    WordBytes process.size sizeBytes ∧
    ListBytes InstructionBytes process.instructions instructionBytes

theorem parses_streamTakeProcess : Taker.Parses streamTakeProcess ProcessBytes := by
  refine (parses_streamTakeUINT32.bind fun size =>
    (parses_streamTakeLIST parses_streamTakeInstruction).bind fun instructions =>
      Taker.parses_pure (Process.mk size instructions)).congr fun process bytes => ?_
  constructor
  · rintro ⟨sizeBytes, instructionBytes, rfl, hsize, hinstructions⟩
    exact ⟨_, sizeBytes, instructionBytes, rfl, hsize, _, instructionBytes, [],
      (List.append_nil _).symm, hinstructions, rfl, rfl⟩
  · rintro ⟨size, sizeBytes, second, rfl, hsize, instructions, instructionBytes, third, rfl,
      hinstructions, rfl, rfl⟩
    exact ⟨sizeBytes, instructionBytes, by simp, hsize, hinstructions⟩

/-- Words one behind the other. -/
def WordsBytes (values : List Word) (bytes : Bytes) : Prop :=
  ∃ pieces, bytes = pieces.flatten ∧ List.Forall₂ WordBytes values pieces

theorem wordsBytes_nil {bytes : Bytes} : WordsBytes [] bytes ↔ bytes = [] := by
  simp [WordsBytes]

theorem wordsBytes_cons {value : Word} {values : List Word} {bytes : Bytes} :
    WordsBytes (value :: values) bytes ↔
      ∃ piece rest, bytes = piece ++ rest ∧ WordBytes value piece ∧ WordsBytes values rest := by
  constructor
  · rintro ⟨pieces, rfl, hpieces⟩
    cases hpieces with
    | @cons _ piece _ pieces hpiece hrest =>
        exact ⟨piece, pieces.flatten, rfl, hpiece, pieces, rfl, hrest⟩
  · rintro ⟨piece, _, rfl, hpiece, pieces, rfl, hpieces⟩
    exact ⟨piece :: pieces, rfl, .cons hpiece hpieces⟩

/-- Three words, the instructions, and seven words. -/
def PcbBytes (pcb : Pcb) (bytes : Bytes) : Prop :=
  ∃ first instructionBytes second, bytes = first ++ instructionBytes ++ second ∧
    WordsBytes [pcb.pid, pcb.size, pcb.clientSocket] first ∧
    ListBytes InstructionBytes pcb.instructions instructionBytes ∧
    WordsBytes [pcb.programCounter, pcb.pageTable, pcb.processFramesIndex, pcb.burstEstimation,
      pcb.leftBurstEstimation, pcb.blockedTime, pcb.pendingIoTime] second

theorem parses_streamTakePcb : Taker.Parses streamTakePcb PcbBytes := by
  refine (parses_streamTakeUINT32.bind fun pid => parses_streamTakeUINT32.bind fun size =>
    parses_streamTakeUINT32.bind fun clientSocket =>
    (parses_streamTakeLIST parses_streamTakeInstruction).bind fun instructions =>
    parses_streamTakeUINT32.bind fun programCounter =>
    parses_streamTakeUINT32.bind fun pageTable =>
    parses_streamTakeUINT32.bind fun processFramesIndex =>
    parses_streamTakeUINT32.bind fun burstEstimation =>
    parses_streamTakeUINT32.bind fun leftBurstEstimation =>
    parses_streamTakeUINT32.bind fun blockedTime =>
    parses_streamTakeUINT32.bind fun pendingIoTime =>
      Taker.parses_pure (Pcb.mk pid size clientSocket instructions programCounter pageTable
        processFramesIndex burstEstimation blockedTime pendingIoTime leftBurstEstimation)).congr
    fun pcb bytes => ?_
  constructor
  · rintro ⟨first, instructionBytes, second, rfl, hfirst, hinstructions, hsecond⟩
    simp only [wordsBytes_cons, wordsBytes_nil] at hfirst hsecond
    obtain ⟨b₁, _, rfl, hpid, b₂, _, rfl, hsize, b₃, _, rfl, hsocket, rfl⟩ := hfirst
    obtain ⟨b₅, _, rfl, hcounter, b₆, _, rfl, htable, b₇, _, rfl, hframes, b₈, _, rfl, hburst,
      b₉, _, rfl, hleft, b₁₀, _, rfl, hblocked, b₁₁, _, rfl, hpending, rfl⟩ := hsecond
    exact ⟨_, b₁, _, by simp only [List.append_assoc, List.nil_append], hpid, _, b₂, _, rfl, hsize,
      _, b₃, _, rfl, hsocket, _, instructionBytes, _, rfl, hinstructions, _, b₅, _, rfl, hcounter,
      _, b₆, _, rfl, htable, _, b₇, _, rfl, hframes, _, b₈, _, rfl, hburst, _, b₉, _, rfl, hleft,
      _, b₁₀, _, rfl, hblocked, _, b₁₁, [], rfl, hpending, rfl, rfl⟩
  · rintro ⟨pid, b₁, r₁, rfl, hpid, size, b₂, r₂, rfl, hsize, socket, b₃, r₃, rfl, hsocket,
      instructions, b₄, r₄, rfl, hinstructions, counter, b₅, r₅, rfl, hcounter,
      table, b₆, r₆, rfl, htable, frames, b₇, r₇, rfl, hframes, burst, b₈, r₈, rfl, hburst,
      left, b₉, r₉, rfl, hleft, blocked, b₁₀, r₁₀, rfl, hblocked, pending, b₁₁, r₁₁, rfl,
      hpending, rfl, rfl⟩
    refine ⟨b₁ ++ (b₂ ++ (b₃ ++ [])), b₄, b₅ ++ (b₆ ++ (b₇ ++ (b₈ ++ (b₉ ++ (b₁₀ ++ (b₁₁ ++ [])))))),
      by simp only [List.append_assoc, List.append_nil], ?_, hinstructions, ?_⟩
    · simp only [wordsBytes_cons, wordsBytes_nil]
      exact ⟨b₁, _, rfl, hpid, b₂, _, rfl, hsize, b₃, _, rfl, hsocket, rfl⟩
    · simp only [wordsBytes_cons, wordsBytes_nil]
      exact ⟨b₅, _, rfl, hcounter, b₆, _, rfl, htable, b₇, _, rfl, hframes, b₈, _, rfl, hburst,
        b₉, _, rfl, hleft, b₁₀, _, rfl, hblocked, b₁₁, _, rfl, hpending, rfl⟩

end SistemasOperativos
