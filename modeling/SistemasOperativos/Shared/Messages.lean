import SistemasOperativos.Shared.Stream

/-!
# Requests and replies of the memory module

The packets between the memory module and its peers: the payload each sender builds, and what
the handler takes from the payload it receives.
-/

namespace SistemasOperativos

/-- The headers of the packets to and from the memory module that have a payload. -/
inductive MessageHeader
  | processNew | processSuspend | processExit | lvl1Table | lvl2Table | readCall | writeCall
  | processMemoryReady | processExitReady | table2ToCpu | frameToCpu | readAnswer
deriving DecidableEq, Repr

/-- The packets, with their fields under the names of the handlers. -/
inductive Message
  | processNew (pid processSize : Word)
  | processSuspend (pid pt1Index processFramesIndex : Word)
  | processExit (pid pt1Index processFramesIndex : Word)
  | lvl1Table (pt1Index entryIndex : Word)
  | lvl2Table (pid pt2Index entryIndex processFramesIndex : Word)
  | readCall (address : Word)
  | writeCall (address value : Word)
  | processMemoryReady (pid level1TableIndex processFrameIndex : Word)
  | processExitReady (pid : Word)
  | table2ToCpu (tableTwoIndex : Word)
  | frameToCpu (receivedFrame : Word)
  | readAnswer (memRead : Word)
deriving DecidableEq, Repr

def Message.header : Message → MessageHeader
  | .processNew .. => .processNew
  | .processSuspend .. => .processSuspend
  | .processExit .. => .processExit
  | .lvl1Table .. => .lvl1Table
  | .lvl2Table .. => .lvl2Table
  | .readCall .. => .readCall
  | .writeCall .. => .writeCall
  | .processMemoryReady .. => .processMemoryReady
  | .processExitReady .. => .processExitReady
  | .table2ToCpu .. => .table2ToCpu
  | .frameToCpu .. => .frameToCpu
  | .readAnswer .. => .readAnswer

/-- A payload of words. -/
def wordsPayload (words : List Word) : Bytes :=
  words.foldl streamAddUINT32 []

/-! ## Senders -/

/-- The payloads of `LVL1_TABLE` and `LVL2_TABLE` at the time `mmu` sends them.  The fields of the
second request are added to `fsPageTable`, the packet of the first, which has been sent:
`sdPageTable` goes out as it was created. -/
def mmuPayloads (ptIndex fstLevelEntry : Word) : Bytes × Bytes :=
  let fsPageTable := wordsPayload [ptIndex, fstLevelEntry]
  let sdPageTable := []
  (fsPageTable, sdPageTable)

/-- The payload sent for a packet. -/
def Message.payload : Message → Bytes
  -- `new_to_ready`: `pcb->pid`, `pcb->size`
  | .processNew pid processSize => wordsPayload [pid, processSize]
  -- `io_listener`: `pcb->pid`, `pcb->page_table`, `pcb->process_frames_index`
  | .processSuspend pid pt1Index processFramesIndex =>
      wordsPayload [pid, pt1Index, processFramesIndex]
  -- `exit_process`: the same
  | .processExit pid pt1Index processFramesIndex => wordsPayload [pid, pt1Index, processFramesIndex]
  | .lvl1Table pt1Index entryIndex => (mmuPayloads pt1Index entryIndex).1
  | .lvl2Table .. => (mmuPayloads 0 0).2
  -- `readMem` and `writeMem`
  | .readCall address => wordsPayload [address]
  | .writeCall address value => wordsPayload [address, value]
  -- `process_new`, `process_exit`
  | .processMemoryReady pid level1TableIndex processFrameIndex =>
      wordsPayload [pid, level1TableIndex, processFrameIndex]
  | .processExitReady pid => wordsPayload [pid]
  -- `access_lvl1_table`, `access_lvl2_table`, `memory_read`
  | .table2ToCpu tableTwoIndex => wordsPayload [tableTwoIndex]
  | .frameToCpu receivedFrame => wordsPayload [receivedFrame]
  | .readAnswer memRead => wordsPayload [memRead]

/-! ## Handlers -/

/-- What the handler of a header takes from its payload. -/
def MessageHeader.take : MessageHeader → Taker UInt8 Message
  -- `process_new`
  | .processNew => do
      let pid ← streamTakeUINT32
      let processSize ← streamTakeUINT32
      pure (.processNew pid processSize)
  -- `process_suspend`
  | .processSuspend => do
      let pid ← streamTakeUINT32
      let pt1Index ← streamTakeUINT32
      let processFramesIndex ← streamTakeUINT32
      pure (.processSuspend pid pt1Index processFramesIndex)
  -- `process_exit`
  | .processExit => do
      let pid ← streamTakeUINT32
      let pt1Index ← streamTakeUINT32
      let processFramesIndex ← streamTakeUINT32
      pure (.processExit pid pt1Index processFramesIndex)
  -- `access_lvl1_table`
  | .lvl1Table => do
      let pt1Index ← streamTakeUINT32
      let entryIndex ← streamTakeUINT32
      pure (.lvl1Table pt1Index entryIndex)
  -- `access_lvl2_table`
  | .lvl2Table => do
      let pid ← streamTakeUINT32
      let pt2Index ← streamTakeUINT32
      let entryIndex ← streamTakeUINT32
      let processFramesIndex ← streamTakeUINT32
      pure (.lvl2Table pid pt2Index entryIndex processFramesIndex)
  -- `memory_read` and `memory_write`
  | .readCall => do
      let address ← streamTakeUINT32
      pure (.readCall address)
  | .writeCall => do
      let address ← streamTakeUINT32
      let value ← streamTakeUINT32
      pure (.writeCall address value)
  -- `table_index_success`
  | .processMemoryReady => do
      let pid ← streamTakeUINT32
      let level1TableIndex ← streamTakeUINT32
      let processFrameIndex ← streamTakeUINT32
      pure (.processMemoryReady pid level1TableIndex processFrameIndex)
  -- `exit_process_success`
  | .processExitReady => do
      let pid ← streamTakeUINT32
      pure (.processExitReady pid)
  -- `receive_ptTwoIndex`, `receive_frame` and `read_answer`
  | .table2ToCpu => do
      let tableTwoIndex ← streamTakeUINT32
      pure (.table2ToCpu tableTwoIndex)
  | .frameToCpu => do
      let receivedFrame ← streamTakeUINT32
      pure (.frameToCpu receivedFrame)
  | .readAnswer => do
      let memRead ← streamTakeUINT32
      pure (.readAnswer memRead)

/-- What a handler makes of a payload received, and the offset up to which it has read.  `heap`
is what lies behind the payload, where the takers go on reading. -/
def MessageHeader.decode (header : MessageHeader) (payload heap : Bytes) :
    Option (Message × ℕ) :=
  (header.take ⟨payload ++ heap, 0⟩).map fun (message, cursor) => (message, cursor.offset)

end SistemasOperativos
