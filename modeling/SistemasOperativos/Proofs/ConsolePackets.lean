import SistemasOperativos.Console.Main
import SistemasOperativos.Proofs.Framing
import SistemasOperativos.Proofs.RoundTrip

/-!
# The packet of a program

The encoding of a program takes at most 13 bytes for each byte of its file, so a file of up to
330 382 099 bytes has a packet whose lengths fit 32 bits.  Received without failures that packet
gives the process back, and a part of it gives nothing.
-/

open Arrival

namespace SistemasOperativos

/-! ## The size of the encoding -/

theorem flatten_readLines (file : List UInt8) : (readLines file).flatten = file := by
  induction file with
  | nil => rfl
  | cons c file ih =>
      rw [readLines]
      split
      · rw [List.flatten_cons, ih, List.singleton_append]
      · cases hlines : readLines file with
        | nil => rw [hlines] at ih; simp [← ih]
        | cons line lines => rw [hlines] at ih; simp [← ih]

theorem ne_nil_of_mem_readLines {file line : List UInt8} (h : line ∈ readLines file) :
    line ≠ [] := by
  induction file generalizing line with
  | nil => cases h
  | cons c file ih =>
      rw [readLines] at h
      split at h
      · rcases List.mem_cons.1 h with rfl | h
        · exact List.cons_ne_nil _ _
        · exact ih h
      · split at h
        · rw [List.mem_singleton.1 h]
          exact List.cons_ne_nil _ _
        · rename_i first lines hlines
          rcases List.mem_cons.1 h with rfl | h
          · exact List.cons_ne_nil _ _
          · exact ih (hlines ▸ List.mem_cons_of_mem _ h)

theorem length_stringTrim_le (text : CString) : (stringTrim text).length ≤ text.length :=
  (List.IsPrefix.length_le (List.rdropWhile_prefix _ _)).trans
    (List.IsSuffix.length_le (List.dropWhile_suffix _))

/-- Between the parts there is a blank. -/
theorem length_intercalate_cons (part : CString) (parts : List CString) :
    part.length + parts.length ≤ ([32].intercalate (part :: parts)).length := by
  induction parts generalizing part with
  | nil => simp
  | cons next rest ih =>
      have := ih next
      rw [List.intercalate_cons_cons]
      simp only [List.length_append, List.length_cons, List.length_nil]
      omega

/-- A byte of the line is one of the name, or stands before one parameter. -/
theorem length_encoding_parseInstruction_le (line : List UInt8) :
    (parseInstruction line).encoding.length ≤ 9 + 4 * line.length := by
  unfold parseInstruction
  have hline : (lineString line).length ≤ line.length :=
    List.IsPrefix.length_le (List.takeWhile_prefix _)
  cases hsplit : stringSplit (lineString line) with
  | nil => exact absurd hsplit (List.splitOn_ne_nil _ _)
  | cons id params =>
      have hid := length_stringTrim_le id
      have hparts := length_intercalate_cons id params
      rw [← hsplit, stringSplit, List.intercalate_splitOn] at hparts
      simp only [Instruction.encoding, stringEncoding, listEncoding, List.length_append,
        Word.length_bytes, List.length_singleton, List.length_flatMap, List.map_map,
        Function.comp_def, List.map_const', List.sum_replicate_nat, List.length_map]
      omega

/-- The encoding of a program takes at most 13 bytes for each byte of its file. -/
theorem length_encoding_getCode_le (size : Word) (file : Bytes) :
    (Process.encoding ⟨size, getCode file⟩).length ≤ 8 + 13 * file.length := by
  have hlines : ∀ lines : List (List UInt8), (∀ line ∈ lines, line ≠ []) →
      ((lines.map parseInstruction).flatMap Instruction.encoding).length ≤
        13 * lines.flatten.length := by
    intro lines hne
    induction lines with
    | nil => exact Nat.zero_le _
    | cons line lines ih =>
        have hfirst := length_encoding_parseInstruction_le line
        have hpos := List.length_pos_iff.2 (hne line List.mem_cons_self)
        have hrest := ih fun other hother => hne other (List.mem_cons_of_mem _ hother)
        simp only [List.map_cons, List.flatMap_cons, List.flatten_cons, List.length_append]
        omega
  have hfile := hlines (readLines file) fun _ => ne_nil_of_mem_readLines
  rw [flatten_readLines] at hfile
  simp only [Process.encoding, listEncoding, List.length_append, Word.length_bytes, getCode]
  omega

/-- The parser sees a line only up to its first NUL. -/
theorem nulFree_parseInstruction (line : List UInt8) : (parseInstruction line).NulFree := by
  unfold parseInstruction
  cases hsplit : stringSplit (lineString line) with
  | nil => exact absurd hsplit (List.splitOn_ne_nil _ _)
  | cons id params =>
      intro hmem
      have hid : (0 : UInt8) ∈ id :=
        List.dropWhile_subset _ (List.IsPrefix.subset (List.rdropWhile_prefix _ _) hmem)
      have hline : (0 : UInt8) ∈ [32].intercalate (id :: params) := by
        cases params with
        | nil => simpa using hid
        | cons param params => simp [List.intercalate_cons_cons, hid]
      rw [← hsplit, stringSplit, List.intercalate_splitOn] at hline
      have := List.mem_takeWhile_imp hline
      simp at this

theorem nulFree_getCode (file : Bytes) : ∀ instruction ∈ getCode file, instruction.NulFree := by
  intro instruction hmem
  obtain ⟨line, -, rfl⟩ := List.mem_map.1 hmem
  exact nulFree_parseInstruction line

/-! ## The packet -/

theorem processPacket_contents {process : Process} (h : process.encoding.length < 2 ^ 32) :
    (processPacket process).payload.contents = process.encoding := by
  have hadd : streamAddProcess [] process = process.encoding :=
    @StreamValue.add_eq (.process process) h []
  have hstream : (processPacket process).payload.stream = process.encoding := hadd
  have hoffset : (processPacket process).payload.offset.toNat = process.encoding.length := by
    show (BitVec.ofNat 32 (streamAddProcess [] process).length).toNat = _
    rw [hadd, BitVec.toNat_ofNat, Nat.mod_eq_of_lt h]
  rw [StreamBuffer.contents, hstream, hoffset, List.take_length]

/-- `receive_process` takes from the packet what the console has put in it. -/
theorem streamTakeProcess_received {process : Process}
    (hnul : ∀ instruction ∈ process.instructions, instruction.NulFree)
    (h : process.encoding.length < 2 ^ 32) :
    let payload := (processPacket process).received.payload
    (streamTakeProcess ⟨payload.stream, payload.offset.toNat⟩).map Prod.fst = some process := by
  intro payload
  have hbytes : ProcessBytes process process.encoding := by
    simp only [Process.encoding, List.length_append] at h
    exact ⟨_, _, rfl, wordBytes_bytes _, instructionsBytes_encoding hnul (by omega)⟩
  have htake := parses_streamTakeProcess.take_eq hbytes [] []
  obtain ⟨-, hstream, hoffset⟩ := (processPacket process).received_eq
  rw [processPacket_contents h] at hstream
  rw [List.nil_append, List.append_nil, List.length_nil] at htake
  show (streamTakeProcess ⟨payload.stream, payload.offset.toNat⟩).map Prod.fst = some process
  rw [show payload.stream = process.encoding from hstream,
    show payload.offset.toNat = 0 from congrArg BitVec.toNat hoffset, htake, Option.map_some]

/-! ## Parts of a packet -/

/-- A call for more than there is finds the end of the stream. -/
theorem socketReceive_of_short {size : ℕ} {arrivals : List (Arrival UInt8)}
    (hsteady : Steady arrivals) (hless : (stream arrivals).length < size) :
    socketReceive size arrivals = (none, []) := by
  obtain ⟨hended, hrest⟩ := receive_of_short hsteady hless
  unfold socketReceive
  rw [if_neg (Nat.ne_of_gt (Nat.lt_of_le_of_lt (Nat.zero_le _) hless))]
  simp only [receiveWrapper, hended, hrest]

/-- A part of a packet, up to the end of the stream, gives no packet and leaves nothing. -/
theorem socketReceivePacket_of_part {arrivals : List (Arrival UInt8)} {packet : Packet}
    (hsteady : Steady arrivals) (hpart : stream arrivals <+: packet.wire)
    (hne : stream arrivals ≠ packet.wire) (garbage : UInt8) :
    socketReceivePacket garbage arrivals = (none, []) := by
  obtain ⟨missing, hmissing⟩ := hpart
  have hlength := congrArg List.length hmissing
  have hpos : 0 < missing.length := by
    refine List.length_pos_iff.2 fun hnil => hne ?_
    rw [← hmissing, hnil, List.append_nil]
  simp only [Packet.wire, List.length_append, List.length_cons, Word.length_bytes,
    packet.payload.length_contents] at hlength
  cases harrivals : stream arrivals with
  | nil =>
      -- not even the header
      have hheader : socketReceive 1 arrivals = (none, []) :=
        socketReceive_of_short hsteady (by simp [harrivals])
      have hsize : socketReceive 4 [] = (none, []) := socketReceive_of_short List.not_mem_nil (by simp)
      simp only [socketReceivePacket, socketReceiveHeader, hheader, hsize]
  | cons header rest =>
      have hheader : stream arrivals = [header] ++ rest := harrivals
      obtain ⟨rest₁, hreceive₁, hsteady₁, hstream₁⟩ :=
        socketReceive_of_steady hsteady hheader (rfl : _ = 1)
      rw [harrivals, Packet.wire, List.cons_append, List.cons.injEq] at hmissing
      rw [harrivals, List.length_cons] at hlength
      obtain ⟨rfl, hmissing⟩ := hmissing
      by_cases hsize : rest.length < 4
      · have hshort : socketReceive 4 rest₁ = (none, []) :=
          socketReceive_of_short hsteady₁ (by rwa [hstream₁])
        simp only [socketReceivePacket, socketReceiveHeader, hreceive₁, hshort]
      · have htake : rest = packet.payload.offset.bytes ++ rest.drop 4 := by
          have hfour := congrArg (List.take 4) hmissing
          rw [List.take_append_of_le_length (by omega),
            List.take_left' (Word.length_bytes _)] at hfour
          rw [← hfour, List.take_append_drop]
        obtain ⟨rest₂, hreceive₂, hsteady₂, hstream₂⟩ :=
          socketReceive_of_steady hsteady₁ (hstream₁.trans htake) (Word.length_bytes _)
        have hshort : socketReceive packet.payload.offset.toNat rest₂ = (none, []) := by
          refine socketReceive_of_short hsteady₂ ?_
          rw [hstream₂, List.length_drop]
          omega
        simp only [socketReceivePacket, socketReceiveHeader, hreceive₁, hreceive₂,
          Word.ofBytes_bytes, hshort]

end SistemasOperativos
