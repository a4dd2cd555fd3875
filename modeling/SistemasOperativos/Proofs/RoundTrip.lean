import SistemasOperativos.Shared.Stream
import Mathlib.Algebra.Group.Nat.Defs

/-!
# Encoding and decoding

The format of processes and PCBs, as a function of the value: where it is shorter than the 32-bit
sizes in it can say, the encoders append it and the decoders take it back, whatever stands before
and behind it.
-/

namespace SistemasOperativos

/-! ## The format -/

/-- A number of elements and the elements. -/
def listEncoding {α : Type} (encode : α → Bytes) (values : List α) : Bytes :=
  Word.bytes (BitVec.ofNat 32 values.length) ++ values.flatMap encode

/-- A string with its terminator, behind their number. -/
def stringEncoding (source : CString) : Bytes :=
  Word.bytes (BitVec.ofNat 32 (source.length + 1)) ++ (source ++ [0])

def Instruction.encoding (instruction : Instruction) : Bytes :=
  stringEncoding instruction.id ++ listEncoding Word.bytes instruction.params

def Process.encoding (process : Process) : Bytes :=
  process.size.bytes ++ listEncoding Instruction.encoding process.instructions

def Pcb.encoding (pcb : Pcb) : Bytes :=
  [pcb.pid, pcb.size, pcb.clientSocket].flatMap Word.bytes ++
    listEncoding Instruction.encoding pcb.instructions ++
    [pcb.programCounter, pcb.pageTable, pcb.processFramesIndex, pcb.burstEstimation,
      pcb.leftBurstEstimation, pcb.blockedTime, pcb.pendingIoTime].flatMap Word.bytes

/-- The id is a C string: it has no terminator inside. -/
def Instruction.NulFree (instruction : Instruction) : Prop :=
  0 ∉ instruction.id

instance (instruction : Instruction) : Decidable instruction.NulFree :=
  inferInstanceAs (Decidable (_ ∉ _))

/-! ## Sizes -/

section Sizes

variable {α : Type} {encode : α → Bytes} {values : List α}

theorem length_le_flatMap (encode : α → Bytes) {a : α} (h : a ∈ values) :
    (encode a).length ≤ (values.flatMap encode).length := by
  obtain ⟨before, after, rfl⟩ := List.append_of_mem h
  simp only [List.flatMap_append, List.flatMap_cons, List.length_append]
  omega

theorem length_encoding_le {a : α} (h : a ∈ values) :
    (encode a).length ≤ (listEncoding encode values).length := by
  have := length_le_flatMap encode h
  rw [listEncoding, List.length_append]
  omega

/-- Elements of at least one byte are at most as many as the bytes. -/
theorem length_le_listEncoding (hpos : ∀ a, 0 < (encode a).length) :
    values.length ≤ (listEncoding encode values).length := by
  have : values.length ≤ (values.flatMap encode).length := by
    induction values with
    | nil => exact Nat.zero_le _
    | cons a values ih =>
        have := hpos a
        simp only [List.length_cons, List.flatMap_cons, List.length_append]
        omega
  rw [listEncoding, List.length_append]
  omega

end Sizes

theorem Instruction.length_encoding_pos (instruction : Instruction) :
    0 < instruction.encoding.length := by
  simp only [encoding, stringEncoding, List.length_append, List.length_singleton]
  omega

/-- The sizes in the encoding of an instruction fit when its encoding does. -/
theorem Instruction.sizes_lt {instruction : Instruction}
    (h : instruction.encoding.length < 2 ^ 32) :
    instruction.id.length + 1 < 2 ^ 32 ∧ instruction.params.length < 2 ^ 32 := by
  have hparams : instruction.params.length ≤
      (listEncoding Word.bytes instruction.params).length :=
    length_le_listEncoding fun _ => Nat.succ_pos 3
  simp only [encoding, stringEncoding, List.length_append, List.length_singleton] at h
  omega

/-! ## Encoders -/

/-- An encoder of lists appends their encoding, if the encoder of their elements does. -/
theorem streamAddLIST_eq {α : Type} {streamAddElem : Bytes → α → Bytes} {encode : α → Bytes}
    {values : List α} (h : ∀ payload, ∀ a ∈ values, streamAddElem payload a = payload ++ encode a)
    (payload : Bytes) :
    streamAddLIST streamAddElem payload values = payload ++ listEncoding encode values := by
  have hfold : ∀ payload,
      values.foldl streamAddElem payload = payload ++ values.flatMap encode := by
    induction values with
    | nil => exact fun payload => (List.append_nil payload).symm
    | cons a values ih =>
        intro payload
        rw [List.foldl_cons, h payload a (by simp),
          ih fun payload b hb => h payload b (List.mem_cons_of_mem a hb), List.flatMap_cons,
          List.append_assoc]
  rw [streamAddLIST, hfold, streamAddUINT32, listEncoding, List.append_assoc]

theorem streamAddSTRING_eq {source : CString} (h : source.length + 1 < 2 ^ 32)
    (payload : Bytes) : streamAddSTRING payload source = payload ++ stringEncoding source := by
  have hsize : (BitVec.ofNat 32 source.length + 1 : Word) = BitVec.ofNat 32 (source.length + 1) :=
    (BitVec.ofNat_add source.length 1).symm
  have hlength : (source ++ [0]).length ≤ (BitVec.ofNat 32 (source.length + 1)).toNat :=
    Nat.le_of_eq (by
      rw [BitVec.toNat_ofNat, Nat.mod_eq_of_lt h, List.length_append, List.length_singleton])
  simp only [streamAddSTRING, hsize, streamAddUINT32, List.take_of_length_le hlength,
    stringEncoding, List.append_assoc]

theorem streamAddInstruction_eq {instruction : Instruction}
    (h : instruction.encoding.length < 2 ^ 32) (payload : Bytes) :
    streamAddInstruction payload instruction = payload ++ instruction.encoding := by
  have hparams : ∀ payload, streamAddLIST streamAddUINT32 payload instruction.params =
      payload ++ listEncoding Word.bytes instruction.params :=
    streamAddLIST_eq fun _ _ _ => rfl
  rw [streamAddInstruction, hparams, streamAddSTRING_eq (Instruction.sizes_lt h).1,
    Instruction.encoding, List.append_assoc]

theorem streamAddInstructions_eq (instructions : List Instruction)
    (h : (listEncoding Instruction.encoding instructions).length < 2 ^ 32) (payload : Bytes) :
    streamAddLIST streamAddInstruction payload instructions =
      payload ++ listEncoding Instruction.encoding instructions :=
  streamAddLIST_eq (fun payload _ hmem =>
    streamAddInstruction_eq (Nat.lt_of_le_of_lt (length_encoding_le hmem) h) payload) payload

/-! ## Languages -/

theorem wordBytes_bytes (value : Word) : WordBytes value value.bytes :=
  ⟨value.length_bytes, (Word.ofBytes_bytes value).symm⟩

theorem wordsBytes_flatMap (values : List Word) : WordsBytes values (values.flatMap Word.bytes) :=
  ⟨values.map Word.bytes, List.flatMap_def .., List.forall₂_map_right_iff.2
    (List.forall₂_same.2 fun value _ => wordBytes_bytes value)⟩

theorem listBytes_listEncoding {α : Type} {L : α → Bytes → Prop} {encode : α → Bytes}
    {values : List α} (hlength : values.length < 2 ^ 32) (h : ∀ a ∈ values, L a (encode a)) :
    ListBytes L values (listEncoding encode values) := by
  refine ⟨BitVec.ofNat 32 values.length, _, values.map encode, ?_, wordBytes_bytes _, ?_, ?_⟩
  · rw [listEncoding, List.flatMap_def]
  · rw [BitVec.toNat_ofNat, Nat.mod_eq_of_lt hlength]
  · exact List.forall₂_map_right_iff.2 (List.forall₂_same.2 h)

/-- The copy of a string with its terminator holds that string. -/
theorem cString_append_zero {source : CString} (h : 0 ∉ source) :
    cString (source ++ [0]) = some source := by
  have hall : ∀ byte ∈ source, decide (byte ≠ 0) = true := by
    intro byte hmem
    exact decide_eq_true fun hzero => h (hzero ▸ hmem)
  rw [cString, if_pos (by simp), List.takeWhile_append_of_pos hall]
  simp

theorem stringBytes_stringEncoding {source : CString} (hnul : 0 ∉ source)
    (hlength : source.length + 1 < 2 ^ 32) : StringBytes source (stringEncoding source) := by
  refine ⟨BitVec.ofNat 32 (source.length + 1), _, source ++ [0], rfl, wordBytes_bytes _, ?_,
    cString_append_zero hnul⟩
  rw [BitVec.toNat_ofNat, Nat.mod_eq_of_lt hlength, List.length_append, List.length_singleton]

theorem instructionBytes_encoding {instruction : Instruction} (hnul : instruction.NulFree)
    (h : instruction.encoding.length < 2 ^ 32) :
    InstructionBytes instruction instruction.encoding := by
  obtain ⟨hid, hparams⟩ := Instruction.sizes_lt h
  exact ⟨_, _, rfl, stringBytes_stringEncoding hnul hid,
    listBytes_listEncoding hparams fun value _ => wordBytes_bytes value⟩

theorem instructionsBytes_encoding {instructions : List Instruction}
    (hnul : ∀ instruction ∈ instructions, instruction.NulFree)
    (h : (listEncoding Instruction.encoding instructions).length < 2 ^ 32) :
    ListBytes InstructionBytes instructions (listEncoding Instruction.encoding instructions) :=
  listBytes_listEncoding
    (Nat.lt_of_le_of_lt (length_le_listEncoding Instruction.length_encoding_pos) h)
    fun instruction hmem => instructionBytes_encoding (hnul instruction hmem)
      (Nat.lt_of_le_of_lt (length_encoding_le hmem) h)

/-! ## Values sent -/

/-- The kinds of values that console, kernel and CPU send each other. -/
inductive StreamKind
  | process | pcb
deriving DecidableEq, Repr

/-- A process or a PCB. -/
inductive StreamValue
  | process (process : Process)
  | pcb (pcb : Pcb)
deriving DecidableEq, Repr

namespace StreamValue

def kind : StreamValue → StreamKind
  | .process _ => .process
  | .pcb _ => .pcb

def instructions : StreamValue → List Instruction
  | .process p => p.instructions
  | .pcb p => p.instructions

def encoding : StreamValue → Bytes
  | .process p => p.encoding
  | .pcb p => p.encoding

/-- The ids of its instructions are C strings. -/
def NulFree (value : StreamValue) : Prop :=
  ∀ instruction ∈ value.instructions, instruction.NulFree

/-- `stream_add_process` or `stream_add_pcb`. -/
def add (payload : Bytes) : StreamValue → Bytes
  | .process p => streamAddProcess payload p
  | .pcb p => streamAddPcb payload p

end StreamValue

/-- `stream_take_process` or `stream_take_pcb`. -/
def StreamKind.take : StreamKind → Taker UInt8 StreamValue
  | .process => do
      let process ← streamTakeProcess
      pure (.process process)
  | .pcb => do
      let pcb ← streamTakePcb
      pure (.pcb pcb)

/-- One value after the other. -/
def takeValues : List StreamKind → Taker UInt8 (List StreamValue)
  | [] => pure []
  | kind :: kinds => do
      let value ← kind.take
      let values ← takeValues kinds
      pure (value :: values)

namespace StreamValue

/-- A value is sent in a packet of its own and taken from it. -/
def transfer (value : StreamValue) : Option StreamValue :=
  (value.kind.take ⟨value.add [], 0⟩).map Prod.fst

/-- `n` transfers, each of what the one before has given. -/
def transfers : ℕ → StreamValue → Option StreamValue
  | 0, value => some value
  | n + 1, value => value.transfer.bind (transfers n)

variable {value : StreamValue}

theorem add_eq (h : value.encoding.length < 2 ^ 32) (payload : Bytes) :
    value.add payload = payload ++ value.encoding := by
  cases value with
  | process p =>
      simp only [encoding, Process.encoding, List.length_append] at h
      simp only [add, streamAddProcess, encoding, Process.encoding, streamAddUINT32,
        streamAddInstructions_eq p.instructions (by omega),
        List.append_assoc]
  | pcb p =>
      simp only [encoding, Pcb.encoding, List.length_append] at h
      simp only [add, streamAddPcb, encoding, Pcb.encoding, streamAddUINT32,
        streamAddInstructions_eq p.instructions (by omega),
        List.flatMap_cons, List.flatMap_nil, List.append_nil, List.append_assoc]

/-- A value is taken from its encoding, whatever stands before and behind it. -/
theorem take_encoding (hnul : value.NulFree) (h : value.encoding.length < 2 ^ 32)
    (before after : Bytes) :
    value.kind.take ⟨before ++ (value.encoding ++ after), before.length⟩ =
      some (value, ⟨before ++ (value.encoding ++ after),
        before.length + value.encoding.length⟩) := by
  cases value with
  | process p =>
      have hbytes : ProcessBytes p p.encoding := by
        simp only [encoding, Process.encoding, List.length_append] at h
        exact ⟨_, _, rfl, wordBytes_bytes _, instructionsBytes_encoding hnul (by omega)⟩
      simp [kind, StreamKind.take, encoding,
        parses_streamTakeProcess.take_eq hbytes before after]
  | pcb p =>
      have hbytes : PcbBytes p p.encoding := by
        simp only [encoding, Pcb.encoding, List.length_append] at h
        exact ⟨_, _, _, rfl, wordsBytes_flatMap _, instructionsBytes_encoding hnul (by omega),
          wordsBytes_flatMap _⟩
      simp [kind, StreamKind.take, encoding,
        parses_streamTakePcb.take_eq hbytes before after]

theorem transfer_eq (hnul : value.NulFree) (h : value.encoding.length < 2 ^ 32) :
    value.transfer = some value := by
  have htake := take_encoding hnul h [] []
  simp only [List.nil_append, List.append_nil, List.length_nil] at htake
  rw [transfer, add_eq h, List.nil_append, htake, Option.map_some]

theorem transfers_eq (hnul : value.NulFree) (h : value.encoding.length < 2 ^ 32) (n : ℕ) :
    value.transfers n = some value := by
  induction n with
  | zero => rfl
  | succ n ih => rw [transfers, transfer_eq hnul h, Option.bind_some, ih]

/-- Values whose encodings lie one behind the other are taken one after the other. -/
theorem takeValues_encoding {values : List StreamValue} (hnul : ∀ value ∈ values, value.NulFree)
    (h : (values.flatMap encoding).length < 2 ^ 32) (before after : Bytes) :
    takeValues (values.map kind) ⟨before ++ (values.flatMap encoding ++ after), before.length⟩ =
      some (values, ⟨before ++ (values.flatMap encoding ++ after),
        before.length + (values.flatMap encoding).length⟩) := by
  induction values generalizing before with
  | nil => rfl
  | cons value values ih =>
      simp only [List.flatMap_cons, List.length_append] at h
      have hvalue := take_encoding (hnul value (by simp)) (by omega) before
        (values.flatMap encoding ++ after)
      have hvalues := ih (fun value hmem => hnul value (List.mem_cons_of_mem _ hmem)) (by omega)
        (before ++ value.encoding)
      simp only [List.append_assoc, List.length_append] at hvalues
      simp [takeValues, hvalue, hvalues, Nat.add_assoc]

/-- Values that fit a payload behind what stands in it are appended to it as their encodings
and taken back one after the other, up to the end of the last, whatever follows; and any number
of transfers gives each of them back. -/
theorem round_trip {values : List StreamValue} (hnul : ∀ value ∈ values, value.NulFree)
    {before : Bytes} (hsize : (before ++ values.flatMap encoding).length < 2 ^ 32)
    (after : Bytes) :
    values.foldl add before = before ++ values.flatMap encoding ∧
    takeValues (values.map kind) ⟨values.foldl add before ++ after, before.length⟩ =
      some (values, ⟨values.foldl add before ++ after, (values.foldl add before).length⟩) ∧
    ∀ value ∈ values, ∀ n, value.transfers n = some value := by
  rw [List.length_append] at hsize
  have hfits : ∀ value ∈ values, value.encoding.length < 2 ^ 32 := by
    intro value hmem
    have := length_le_flatMap encoding hmem
    omega
  have hadd : values.foldl add before = before ++ values.flatMap encoding := by
    clear hsize hnul
    induction values generalizing before with
    | nil => exact (List.append_nil before).symm
    | cons value values ih =>
        rw [List.foldl_cons, add_eq (hfits value (by simp)),
          ih fun value hmem => hfits value (List.mem_cons_of_mem _ hmem), List.flatMap_cons,
          List.append_assoc]
  refine ⟨hadd, ?_, fun value hmem => transfers_eq (hnul value hmem) (hfits value hmem)⟩
  rw [hadd, List.append_assoc, takeValues_encoding hnul (by omega), List.length_append]

/-- A process and a PCB with its program. -/
def small : List StreamValue :=
  let instruction : Instruction := ⟨ascii ['R', 'E', 'A', 'D'], [4]⟩
  [.process ⟨64, [instruction]⟩,
    .pcb { (default : Pcb) with pid := 1, instructions := [instruction] }]

/-- They are taken back from one payload. -/
theorem round_trip_small : takeValues (small.map kind) ⟨small.foldl add [] ++ [7], 0⟩ =
    some (small, ⟨small.foldl add [] ++ [7], (small.foldl add []).length⟩) := by
  have hnul : ∀ value ∈ small, value.NulFree := by
    simp [small, NulFree, instructions, Instruction.NulFree, ascii]
  have hsize : (([] : Bytes) ++ small.flatMap encoding).length < 2 ^ 32 := by
    have hlength : (([] : Bytes) ++ small.flatMap encoding).length = 86 := by decide +kernel
    omega
  exact (round_trip hnul hsize [7]).2.1

end StreamValue
end SistemasOperativos
