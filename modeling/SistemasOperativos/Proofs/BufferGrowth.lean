import SistemasOperativos.Proofs.RoundTrip
import SistemasOperativos.Shared.Buffer
import SistemasOperativos.Shared.Networking

/-!
# Growing buffers

What is added to a stream is appended to what its block holds, as long as the total fits the
32-bit offset.  The loop of `stream_add` ends then, since no size is near `2 ^ 64`.
-/

open Splice

namespace SistemasOperativos

/-! ## What calls add -/

mutual

/-- The bytes a call adds. -/
def StreamCall.encoding : StreamCall → Bytes
  | .uint32 value => value.bytes
  | .string source => stringEncoding source
  | .list elems => Word.bytes (BitVec.ofNat 32 elems.length) ++ elemsEncoding elems

/-- The bytes the elements of a list add. -/
def elemsEncoding : List (List StreamCall) → Bytes
  | [] => []
  | elem :: elems => callsEncoding elem ++ elemsEncoding elems

/-- The bytes calls add. -/
def callsEncoding : List StreamCall → Bytes
  | [] => []
  | call :: calls => call.encoding ++ callsEncoding calls

end

theorem elemsEncoding_eq (elems : List (List StreamCall)) :
    elemsEncoding elems = elems.flatMap callsEncoding := by
  induction elems with
  | nil => rfl
  | cons elem elems ih => rw [elemsEncoding, List.flatMap_cons, ih]

/-- A list adds its length and its elements. -/
theorem StreamCall.encoding_list (elems : List (List StreamCall)) :
    (StreamCall.list elems).encoding = listEncoding callsEncoding elems := by
  rw [encoding, elemsEncoding_eq, listEncoding]

namespace GrowingStream

variable {heap : Heap} {buffer : GrowingStream} {payload : Bytes} {size : Size}

/-! ## The loop -/

/-- The block begins with the payload, and the offset is behind it. -/
structure Holds (buffer : GrowingStream) (payload : Bytes) : Prop where
  offset : buffer.offset.toNat = payload.length
  fits : payload.length ≤ buffer.mallocSize.toNat
  stream : buffer.stream.take payload.length = payload

/-- As the payload of a packet the buffer has the bytes of the payload. -/
theorem Holds.contents (h : buffer.Holds payload) :
    ∃ sent : StreamBuffer, sent.offset = buffer.offset ∧ sent.stream = buffer.stream ∧
      sent.contents = payload := by
  have hinside : buffer.offset.toNat ≤ buffer.stream.length := by
    rw [h.offset, buffer.block]
    exact h.fits
  refine ⟨⟨buffer.offset, buffer.stream, hinside⟩, rfl, rfl, ?_⟩
  rw [StreamBuffer.contents, h.offset]
  exact h.stream

theorem holds_createStream (heap : Heap) (size : Size) : (createStream heap size).Holds [] :=
  ⟨rfl, Nat.zero_le _, rfl⟩

/-- The test of the loop. -/
theorem mallocSize_lt_iff (hneed : buffer.offset.toNat + size.toNat < 2 ^ 64) :
    buffer.mallocSize < buffer.offset.setWidth 64 + size ↔
      buffer.mallocSize.toNat < buffer.offset.toNat + size.toNat := by
  have hoffset := buffer.offset.isLt
  rw [BitVec.lt_def, BitVec.toNat_add, BitVec.toNat_setWidth,
    Nat.mod_eq_of_lt (a := buffer.offset.toNat) (by omega), Nat.mod_eq_of_lt hneed]

/-- One more round keeps the payload, reallocated as it is. -/
theorem enlarge_holds (heap : Heap) (h : buffer.Holds payload)
    (hsize : buffer.mallocSize.toNat < 2 ^ 32) : (buffer.enlarge heap).Holds payload ∧
      (buffer.enlarge heap).mallocSize.toNat = buffer.mallocSize.toNat + 64 := by
  have hlarger : (buffer.enlarge heap).mallocSize.toNat = buffer.mallocSize.toNat + 64 := by
    show (buffer.mallocSize + initialStreamSize).toNat = _
    rw [BitVec.toNat_add]
    exact Nat.mod_eq_of_lt (Nat.lt_trans (Nat.add_lt_add_right hsize 64) (by decide))
  refine ⟨⟨h.offset, ?_, ?_⟩, hlarger⟩
  · rw [hlarger]
    exact Nat.le_trans h.fits (Nat.le_add_right _ 64)
  · have hkept : (buffer.enlarge heap).stream.take buffer.stream.length = buffer.stream := by
      have hle : buffer.stream.length ≤ (buffer.mallocSize + initialStreamSize).toNat := by
        rw [buffer.block]
        exact Nat.le_trans (Nat.le_add_right _ 64) (Nat.le_of_eq hlarger.symm)
      exact (heap.take_realloc _ _).trans (List.take_of_length_le hle)
    have hfits : payload.length ≤ buffer.stream.length := buffer.block ▸ h.fits
    calc (buffer.enlarge heap).stream.take payload.length
        = ((buffer.enlarge heap).stream.take buffer.stream.length).take payload.length := by
          rw [List.take_take, Nat.min_eq_left hfits]
      _ = buffer.stream.take payload.length := by rw [hkept]
      _ = payload := h.stream

/-- The loop ends with a block that the addition fits. -/
theorem grow_eq_some (heap : Heap) (h : buffer.Holds payload)
    (hneed : payload.length + size.toNat < 2 ^ 32) {rounds : ℕ}
    (hrounds : payload.length + size.toNat ≤ buffer.mallocSize.toNat + 64 * rounds) :
    ∃ larger : GrowingStream, larger.Holds payload ∧
      payload.length + size.toNat ≤ larger.mallocSize.toNat ∧
      ∀ fuel, rounds ≤ fuel → buffer.grow heap size fuel = some larger := by
  have htest : ∀ {buffer : GrowingStream}, buffer.Holds payload →
      (buffer.mallocSize < buffer.offset.setWidth 64 + size ↔
        buffer.mallocSize.toNat < payload.length + size.toNat) := by
    intro buffer h
    rw [mallocSize_lt_iff (by rw [h.offset]; omega), h.offset]
  induction rounds generalizing buffer with
  | zero =>
      refine ⟨buffer, h, hrounds, fun fuel _ => ?_⟩
      cases fuel <;> rw [grow, if_neg (mt (htest h).1 (by omega))]
  | succ rounds ih =>
      by_cases hfits : payload.length + size.toNat ≤ buffer.mallocSize.toNat
      · refine ⟨buffer, h, hfits, fun fuel _ => ?_⟩
        cases fuel <;> rw [grow, if_neg (mt (htest h).1 (by omega))]
      · obtain ⟨hholds, hlarger⟩ := enlarge_holds heap h (by omega)
        obtain ⟨larger, hlast, hroom, hends⟩ := ih hholds (by omega)
        refine ⟨larger, hlast, hroom, fun fuel hfuel => ?_⟩
        obtain ⟨fuel, rfl⟩ := Nat.exists_eq_succ_of_ne_zero (Nat.ne_zero_of_lt hfuel)
        rw [grow, if_pos ((htest h).2 (by omega))]
        exact hends fuel (Nat.le_of_succ_le_succ hfuel)

/-! ## Additions -/

/-- Where the bytes fit, the function appends them to the payload, once its loops are given as
many rounds as 32-bit sizes ask for. -/
def Adds (add : ℕ → GrowingStream → Option GrowingStream) (bytes : Bytes) : Prop :=
  ∀ (buffer : GrowingStream) (payload : Bytes), buffer.Holds payload →
    payload.length + bytes.length < 2 ^ 32 →
      ∃ filled : GrowingStream, filled.Holds (payload ++ bytes) ∧
        ∀ fuel, 2 ^ 26 ≤ fuel → add fuel buffer = some filled

theorem adds_nil : Adds (fun _ buffer => some buffer) [] := by
  intro buffer payload h _
  exact ⟨buffer, by rwa [List.append_nil], fun fuel _ => rfl⟩

theorem Adds.bind {add add' : ℕ → GrowingStream → Option GrowingStream} {bytes bytes' : Bytes}
    (h : Adds add bytes) (h' : Adds add' bytes') :
    Adds (fun fuel buffer => add fuel buffer >>= add' fuel) (bytes ++ bytes') := by
  intro buffer payload hholds hfits
  rw [List.length_append] at hfits
  obtain ⟨first, hfirst, hadds⟩ := h _ _ hholds (by omega)
  obtain ⟨second, hsecond, hadds'⟩ := h' _ _ hfirst (by rw [List.length_append]; omega)
  refine ⟨second, by rwa [← List.append_assoc], fun fuel hfuel => ?_⟩
  show add fuel buffer >>= add' fuel = some second
  rw [hadds fuel hfuel]
  exact hadds' fuel hfuel

/-- The copy appends the source. -/
theorem copy_holds {source : Bytes} (h : buffer.Holds payload)
    (hsource : source.length = size.toNat) (hneed : payload.length + size.toNat < 2 ^ 32)
    (hroom : payload.length + size.toNat ≤ buffer.mallocSize.toNat) :
    ∃ filled : GrowingStream, filled.Holds (payload ++ source) ∧
      buffer.copy source size = some filled := by
  have hinside : size.toNat ≤ source.length ∧
      buffer.offset.toNat + size.toNat ≤ buffer.mallocSize.toNat :=
    ⟨Nat.le_of_eq hsource.symm, h.offset.symm ▸ hroom⟩
  refine ⟨_, ⟨?_, ?_, ?_⟩, dif_pos hinside⟩
  · show (buffer.offset + size.setWidth 32).toNat = _
    rw [BitVec.toNat_add, BitVec.toNat_setWidth, h.offset, List.length_append, hsource]
    omega
  · rw [List.length_append, hsource]
    exact hroom
  · have hwhole : source.take size.toNat = source :=
      List.take_of_length_le (Nat.le_of_eq hsource)
    have hstart : (buffer.stream.take payload.length).length = payload.length := by rw [h.stream]
    show (splice buffer.stream buffer.offset.toNat (source.take size.toNat)).take _ = _
    rw [hwhole, h.offset, splice, h.stream, List.take_left]

theorem adds_streamAdd (heap : Heap) {source : Bytes} (hsource : source.length = size.toNat) :
    Adds (fun fuel buffer => buffer.streamAdd heap fuel source size) source := by
  intro buffer payload h hfits
  rw [hsource] at hfits
  have hrounds : payload.length + size.toNat ≤ buffer.mallocSize.toNat + 64 * 2 ^ 26 := by omega
  obtain ⟨larger, hholds, hroom, hends⟩ := grow_eq_some heap h hfits hrounds
  obtain ⟨filled, hfilled, hcopy⟩ := copy_holds hholds hsource hfits hroom
  refine ⟨filled, hfilled, fun fuel hfuel => ?_⟩
  show buffer.grow heap size fuel >>= (fun larger => larger.copy source size) = some filled
  rw [hends fuel hfuel]
  exact hcopy

theorem adds_streamAddUINT32 (heap : Heap) (value : Word) :
    Adds (fun fuel buffer => buffer.streamAddUINT32 heap fuel value) value.bytes :=
  adds_streamAdd heap value.length_bytes

theorem adds_streamAddSTRING (heap : Heap) (source : CString) :
    Adds (fun fuel buffer => buffer.streamAddSTRING heap fuel source) (stringEncoding source) := by
  intro buffer payload h hfits
  have hlength : (stringEncoding source).length = 4 + (source.length + 1) := by
    rw [stringEncoding, List.length_append, List.length_append, Word.length_bytes,
      List.length_singleton]
  have hsize : (BitVec.ofNat 32 source.length + 1 : Word) = BitVec.ofNat 32 (source.length + 1) :=
    (BitVec.ofNat_add source.length 1).symm
  have hsource : (source ++ [0]).length =
      ((BitVec.ofNat 32 (source.length + 1)).setWidth 64 : Size).toNat := by
    rw [BitVec.toNat_setWidth, BitVec.toNat_ofNat, Nat.mod_eq_of_lt (by omega),
      Nat.mod_eq_of_lt (by omega), List.length_append, List.length_singleton]
  have hboth := (adds_streamAddUINT32 heap (BitVec.ofNat 32 (source.length + 1))).bind
    (adds_streamAdd heap hsource)
  obtain ⟨filled, hfilled, hadds⟩ := hboth _ _ h hfits
  refine ⟨filled, hfilled, fun fuel hfuel => ?_⟩
  simp only [streamAddSTRING, hsize]
  exact hadds fuel hfuel

end GrowingStream

open GrowingStream

mutual

/-- Every call appends its bytes. -/
theorem StreamCall.adds (heap : Heap) :
    ∀ call : StreamCall, Adds (fun fuel => call.add heap fuel) call.encoding
  | .uint32 value => adds_streamAddUINT32 heap value
  | .string source => adds_streamAddSTRING heap source
  | .list elems =>
      (adds_streamAddUINT32 heap (BitVec.ofNat 32 elems.length)).bind (addElems_adds heap elems)

theorem addElems_adds (heap : Heap) :
    ∀ elems, Adds (fun fuel => addElems heap fuel elems) (elemsEncoding elems)
  | [] => adds_nil
  | elem :: elems => (addCalls_adds heap elem).bind (addElems_adds heap elems)

theorem addCalls_adds (heap : Heap) :
    ∀ calls, Adds (fun fuel => addCalls heap fuel calls) (callsEncoding calls)
  | [] => adds_nil
  | call :: calls => (StreamCall.adds heap call).bind (addCalls_adds heap calls)

end

/-! ## Processes and PCBs -/

/-- The calls of `stream_add_instruction`. -/
def Instruction.calls (instruction : Instruction) : List StreamCall :=
  [.string instruction.id, .list (instruction.params.map fun param => [.uint32 param])]

/-- The calls of `stream_add_process` and `stream_add_pcb`. -/
def StreamValue.calls : StreamValue → List StreamCall
  | .process p => [.uint32 p.size, .list (p.instructions.map Instruction.calls)]
  | .pcb p =>
      [.uint32 p.pid, .uint32 p.size, .uint32 p.clientSocket,
        .list (p.instructions.map Instruction.calls), .uint32 p.programCounter,
        .uint32 p.pageTable, .uint32 p.processFramesIndex, .uint32 p.burstEstimation,
        .uint32 p.leftBurstEstimation, .uint32 p.blockedTime, .uint32 p.pendingIoTime]

/-- A list adds the encodings of its elements. -/
theorem StreamCall.encoding_map {α : Type} {calls : α → List StreamCall} {encode : α → Bytes}
    (h : ∀ a, callsEncoding (calls a) = encode a) (values : List α) :
    (StreamCall.list (values.map calls)).encoding = listEncoding encode values := by
  rw [encoding_list, listEncoding, listEncoding, List.length_map, List.flatMap_map]
  simp only [h]

theorem Instruction.callsEncoding_calls (instruction : Instruction) :
    callsEncoding instruction.calls = instruction.encoding := by
  have hparam : ∀ param : Word, callsEncoding [.uint32 param] = param.bytes :=
    fun param => List.append_nil _
  rw [calls, callsEncoding, callsEncoding, callsEncoding, StreamCall.encoding_map hparam,
    List.append_nil]
  rfl

theorem StreamCall.encoding_uint32 (value : Word) :
    (StreamCall.uint32 value).encoding = value.bytes := by
  rw [encoding]

theorem StreamValue.callsEncoding_calls (value : StreamValue) :
    callsEncoding value.calls = value.encoding := by
  cases value with
  | process p =>
      simp only [calls, callsEncoding, StreamCall.encoding_map Instruction.callsEncoding_calls,
        StreamCall.encoding_uint32, List.append_nil, encoding, Process.encoding]
  | pcb p =>
      simp only [calls, callsEncoding, StreamCall.encoding_map Instruction.callsEncoding_calls,
        StreamCall.encoding_uint32, List.append_nil, encoding, Pcb.encoding, List.flatMap_cons,
        List.flatMap_nil, List.append_assoc]

/-- The block is filled with the payload that the encoders of processes and PCBs make. -/
theorem StreamValue.calls_holds (heap : Heap) {value : StreamValue} {payload : Bytes}
    {buffer : GrowingStream} (hholds : buffer.Holds payload)
    (h : payload.length + value.encoding.length < 2 ^ 32) :
    ∃ filled : GrowingStream, filled.Holds (value.add payload) ∧
      ∀ fuel, 2 ^ 26 ≤ fuel → addCalls heap fuel value.calls buffer = some filled := by
  rw [StreamValue.add_eq (by omega), ← callsEncoding_calls]
  exact addCalls_adds heap value.calls _ _ hholds (by rwa [callsEncoding_calls])

/-! ## Sequences of calls -/

/-- Calls on a new stream, of any size, that add less than `2 ^ 32` bytes: the loops end, every
copy stays in the block, and the block begins with what has been added. -/
theorem addCalls_createStream (heap : Heap) (size : Size) {calls : List StreamCall}
    (h : (callsEncoding calls).length < 2 ^ 32) :
    ∃ (filled : GrowingStream) (rounds : ℕ),
      (∀ fuel, rounds ≤ fuel → addCalls heap fuel calls (createStream heap size) = some filled) ∧
      filled.offset.toNat = (callsEncoding calls).length ∧
      filled.offset.toNat ≤ filled.mallocSize.toNat ∧
      filled.stream.take filled.offset.toNat = callsEncoding calls := by
  obtain ⟨filled, hfilled, hadds⟩ := addCalls_adds heap calls _ _ (holds_createStream heap size)
    (by simpa using h)
  rw [List.nil_append] at hfilled
  refine ⟨filled, 2 ^ 26, hadds, hfilled.offset, ?_, ?_⟩
  · rw [hfilled.offset]
    exact hfilled.fits
  · rw [hfilled.offset]
    exact hfilled.stream

/-- Two strings in a list, with a word in front, on a stream of no bytes. -/
theorem addCalls_createStream_small :
    let calls : List StreamCall := [.uint32 7, .list [[.string [82]], [.string [], .uint32 9]]]
    ∃ (filled : GrowingStream) (rounds : ℕ),
      (∀ fuel, rounds ≤ fuel → addCalls .zeros fuel calls (createStream .zeros 0) = some filled) ∧
      filled.offset.toNat = 23 ∧ filled.offset.toNat ≤ filled.mallocSize.toNat ∧
      filled.stream.take filled.offset.toNat =
        [7, 0, 0, 0, 2, 0, 0, 0, 2, 0, 0, 0, 82, 0, 1, 0, 0, 0, 0, 9, 0, 0, 0] :=
  addCalls_createStream .zeros 0 (by decide)

end SistemasOperativos
