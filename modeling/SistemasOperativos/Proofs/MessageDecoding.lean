import SistemasOperativos.Shared.Messages

/-!
# Agreement of senders and handlers

Every packet to or from the memory module is decoded into what was put in it, except
`LVL2_TABLE`: its payload goes out empty, and the handler reads its four fields behind it.
-/

namespace SistemasOperativos

/-! ## Payloads of words -/

theorem foldl_streamAddUINT32 (payload : Bytes) (words : List Word) :
    words.foldl streamAddUINT32 payload = payload ++ words.flatMap Word.bytes := by
  induction words generalizing payload with
  | nil => exact (List.append_nil payload).symm
  | cons word words ih => rw [List.foldl_cons, ih, streamAddUINT32, List.flatMap_cons,
      List.append_assoc]

@[simp] theorem wordsPayload_nil : wordsPayload [] = [] := rfl

@[simp] theorem wordsPayload_cons (word : Word) (words : List Word) :
    wordsPayload (word :: words) = word.bytes ++ wordsPayload words := by
  simp [wordsPayload, foldl_streamAddUINT32, streamAddUINT32]

/-- A word behind other bytes is taken from there. -/
theorem streamTakeUINT32_bytes (before after : Bytes) (word : Word) {offset : ℕ}
    (hoffset : offset = before.length) :
    streamTakeUINT32 ⟨before ++ (word.bytes ++ after), offset⟩ =
      some (word, ⟨before ++ (word.bytes ++ after), offset + 4⟩) := by
  subst hoffset
  exact parses_streamTakeUINT32.take_eq ⟨word.length_bytes, (Word.ofBytes_bytes word).symm⟩
    before after

/-- The handlers of the packets of up to three words read them one behind the other. -/
theorem streamTakeUINT32_first (word : Word) (after : Bytes) :
    streamTakeUINT32 ⟨word.bytes ++ after, 0⟩ = some (word, ⟨word.bytes ++ after, 4⟩) :=
  streamTakeUINT32_bytes [] after word rfl

theorem streamTakeUINT32_second (first word : Word) (after : Bytes) :
    streamTakeUINT32 ⟨first.bytes ++ (word.bytes ++ after), 4⟩ =
      some (word, ⟨first.bytes ++ (word.bytes ++ after), 8⟩) :=
  streamTakeUINT32_bytes first.bytes after word rfl

theorem streamTakeUINT32_third (first second word : Word) (after : Bytes) :
    streamTakeUINT32 ⟨first.bytes ++ (second.bytes ++ (word.bytes ++ after)), 8⟩ =
      some (word, ⟨first.bytes ++ (second.bytes ++ (word.bytes ++ after)), 12⟩) := by
  have h := streamTakeUINT32_bytes (first.bytes ++ second.bytes) after word
    (rfl : 8 = (first.bytes ++ second.bytes).length)
  simpa only [List.append_assoc] using h

/-- A word taken moves the offset by four. -/
theorem offset_streamTakeUINT32 {cursor cursor' : Cursor UInt8} {word : Word}
    (h : streamTakeUINT32 cursor = some (word, cursor')) : cursor'.offset = cursor.offset + 4 := by
  obtain ⟨⟨bytes, middle⟩, htake, hword⟩ := Option.bind_eq_some_iff.1 h
  cases hword
  unfold Taker.take at htake
  split at htake <;> cases htake
  rfl

/-! ## Messages -/

/-- The handler of `LVL2_TABLE` has read sixteen bytes when it has its fields. -/
theorem offset_decode_lvl2Table {payload heap : Bytes} {message : Message} {offset : ℕ}
    (h : MessageHeader.lvl2Table.decode payload heap = some (message, offset)) : offset = 16 := by
  obtain ⟨⟨message', cursor⟩, htake, heq⟩ := Option.map_eq_some_iff.1 h
  cases heq
  obtain ⟨⟨pid, first⟩, hpid, htake⟩ := Option.bind_eq_some_iff.1 htake
  obtain ⟨⟨pt2Index, second⟩, hpt2Index, htake⟩ := Option.bind_eq_some_iff.1 htake
  obtain ⟨⟨entryIndex, third⟩, hentryIndex, htake⟩ := Option.bind_eq_some_iff.1 htake
  obtain ⟨⟨framesIndex, fourth⟩, hframesIndex, htake⟩ := Option.bind_eq_some_iff.1 htake
  cases htake
  have h₁ := offset_streamTakeUINT32 hpid
  have h₂ := offset_streamTakeUINT32 hpt2Index
  have h₃ := offset_streamTakeUINT32 hentryIndex
  have h₄ := offset_streamTakeUINT32 hframesIndex
  simp only at h₁ h₂ h₃ h₄ ⊢
  omega

/-- Whatever lies behind the payload, a packet is decoded into its fields, up to the end of its
payload, exactly if it is not an `LVL2_TABLE`. -/
theorem Message.decode_payload_iff (message : Message) (heap : Bytes) :
    message.header.decode message.payload heap = some (message, message.payload.length) ↔
      message.header ≠ .lvl2Table := by
  cases message with
  | lvl2Table pid pt2Index entryIndex processFramesIndex =>
      simp only [Message.header, ne_eq, not_true_eq_false, iff_false]
      intro h
      have hoffset := offset_decode_lvl2Table h
      cases hoffset
  | _ =>
      simp only [Message.header, ne_eq, reduceCtorEq, not_false_eq_true, iff_true]
      simp [MessageHeader.decode, MessageHeader.take, Message.payload, mmuPayloads,
        streamTakeUINT32_first, streamTakeUINT32_second, streamTakeUINT32_third]

/-- The fields of an `LVL2_TABLE` whose sender meant pid 2 and level-2 table 1, decoded from the
bytes that lie behind its payload. -/
theorem Message.not_decode_payload :
    (Message.lvl2Table 2 1 0 1).payload = [] ∧
    MessageHeader.lvl2Table.decode (Message.lvl2Table 2 1 0 1).payload
      (wordsPayload [7, 7, 7, 7]) = some (.lvl2Table 7 7 7 7, 16) ∧
    ¬ ∀ (message : Message) (heap : Bytes),
      message.header.decode message.payload heap =
        some (message, message.payload.length) := by
  have hdecode : MessageHeader.lvl2Table.decode (Message.lvl2Table 2 1 0 1).payload
      (wordsPayload [7, 7, 7, 7]) = some (.lvl2Table 7 7 7 7, 16) := by decide +kernel
  refine ⟨rfl, hdecode, fun hall => ?_⟩
  have h := hall (.lvl2Table 2 1 0 1) (wordsPayload [7, 7, 7, 7])
  exact absurd (hdecode.symm.trans h) (by decide)

end SistemasOperativos
