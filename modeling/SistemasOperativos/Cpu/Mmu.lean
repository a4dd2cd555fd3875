import SistemasOperativos.Memory.Handlers
import SistemasOperativos.Shared.Messages

/-!
# Address translation

`mmu` of `cpu/src/cpu.c`, and the two requests it makes of the memory module.
-/

namespace SistemasOperativos

/-! ## The ints of `mmu` -/

/-- `page_number`. -/
def pageNumber (cfg : MemoryConfig) (logicDir : ℤ) : ℤ :=
  logicDir.tdiv cfg.pageSize

def fstLevelEntry (cfg : MemoryConfig) (logicDir : ℤ) : ℤ :=
  (pageNumber cfg logicDir).tdiv cfg.entriesPerTable

def scdLevelEntry (cfg : MemoryConfig) (logicDir : ℤ) : ℤ :=
  (pageNumber cfg logicDir).tmod cfg.entriesPerTable

/-- `offset`. -/
def pageOffset (cfg : MemoryConfig) (logicDir : ℤ) : ℤ :=
  logicDir - pageNumber cfg logicDir * cfg.pageSize

/-! ## The exchange -/

variable {Swap : Type} (cfg : MemoryConfig) (host : Host) (store : SwapStore Swap)

/-- The memory module receives a `LVL1_TABLE` packet. -/
def receiveLvl1Table (payload heap : Bytes) (m : Memory Swap) :
    Option (Memory Swap × Option MemoryAnswer) :=
  match MessageHeader.lvl1Table.decode payload heap with
  | some (.lvl1Table pt1Index entryIndex, _) => m.accessLvl1Table host pt1Index entryIndex
  | _ => none

/-- The memory module receives a `LVL2_TABLE` packet. -/
def receiveLvl2Table (payload heap : Bytes) (found : Option ℕ) (m : Memory Swap) :
    Option (Memory Swap × Option MemoryAnswer) :=
  match MessageHeader.lvl2Table.decode payload heap with
  | some (.lvl2Table pid pt2Index entryIndex _, _) =>
      m.accessLvl2Table cfg host store pid pt2Index entryIndex found
  | _ => none

/-- `mmu`, with what lies behind the payloads on the heap of the memory module: the physical
address, and the state of the memory module.  It is `none` where `mmu` waits for ever, or the
memory module crashes. -/
def mmu (pcb : Pcb) (logicDir : Word) (heap₁ heap₂ : Bytes) (found : Option ℕ) (m : Memory Swap) :
    Option (Word × Memory Swap) :=
  let (fsPageTable, sdPageTable) :=
    mmuPayloads pcb.pageTable (BitVec.ofInt 32 (fstLevelEntry cfg logicDir.toInt))
  match receiveLvl1Table host fsPageTable heap₁ m with
  | some (m, some (.table2ToCpu _)) =>
      match receiveLvl2Table cfg host store sdPageTable heap₂ found m with
      | some (m, some (.frameToCpu receivedFrame)) =>
          some (receivedFrame + BitVec.ofInt 32 (pageOffset cfg logicDir.toInt), m)
      | _ => none
  | _ => none

variable {cfg host store}

/-- `mmu` adds the offset to the number told for the page that the words behind its empty second
payload name.  The first request leaves the memory module as it was. -/
theorem mmu_eq_some {pcb : Pcb} {logicDir physicDir : Word} {heap₁ heap₂ : Bytes}
    {found : Option ℕ} {m m' : Memory Swap}
    (h : mmu cfg host store pcb logicDir heap₁ heap₂ found m = some (physicDir, m')) :
    ∃ pid pt2Index entryIndex processFramesIndex offset number,
      MessageHeader.lvl2Table.decode [] heap₂ =
        some (.lvl2Table pid pt2Index entryIndex processFramesIndex, offset) ∧
      m.getFrameNumber cfg host store ⟨pt2Index.toNat, entryIndex.toNat⟩ pid found =
        some (m', number) ∧
      physicDir = BitVec.ofInt 32 number + BitVec.ofInt 32 (pageOffset cfg logicDir.toInt) := by
  unfold mmu at h
  simp only [mmuPayloads] at h
  split at h
  case h_2 => cases h
  rename_i m₁ table hlvl1
  split at h
  case h_2 => cases h
  rename_i m₂ frame hlvl2
  cases h
  obtain rfl : m₁ = m := by
    unfold receiveLvl1Table at hlvl1
    split at hlvl1
    · unfold Memory.accessLvl1Table at hlvl1
      split at hlvl1
      · cases hlvl1
      · obtain ⟨pt2Index, _, heq⟩ := Option.map_eq_some_iff.1 hlvl1
        cases heq
        rfl
    · cases hlvl1
  unfold receiveLvl2Table at hlvl2
  split at hlvl2
  case h_2 => cases hlvl2
  rename_i pid pt2Index entryIndex processFramesIndex offset hdecode
  unfold Memory.accessLvl2Table at hlvl2
  split at hlvl2
  · cases hlvl2
  obtain ⟨⟨m₃, number⟩, hnumber, heq⟩ := Option.map_eq_some_iff.1 hlvl2
  cases heq
  exact ⟨pid, pt2Index, entryIndex, processFramesIndex, offset, number, hdecode, hnumber, rfl⟩

variable (cfg host store)

/-! ## COPY -/

/-- `readMem`. -/
def readMem (fisicDir : Word) (m : Memory Swap) : Option (Word × Memory Swap) :=
  match m.memoryRead fisicDir with
  | some (m, some (.readAnswer memRead)) => some (memRead, m)
  | _ => none

/-- `writeMem`. -/
def writeMem (fisicDir value : Word) (m : Memory Swap) : Option (Memory Swap) :=
  match m.memoryWrite fisicDir value with
  | some (m, some .writeSuccess) => some m
  | _ => none

/-- What the memory module happens to find while it serves the two requests of `mmu`: what lies
behind their payloads on its heap, and a frame list. -/
structure Surroundings where
  heap₁ : Bytes
  heap₂ : Bytes
  found : Option ℕ

/-- `execute_copy`, with the surroundings of its two calls of `mmu`. -/
def executeCopy (pcb : Pcb) (lAddress lValueAddress : Word) (write read : Surroundings)
    (m : Memory Swap) : Option (Memory Swap) :=
  match mmu cfg host store pcb lAddress write.heap₁ write.heap₂ write.found m with
  | none => none
  | some (fisicDirWrite, m) =>
      match mmu cfg host store pcb lValueAddress read.heap₁ read.heap₂ read.found m with
      | none => none
      | some (fisicDirRead, m) =>
          match readMem fisicDirRead m with
          | none => none
          | some (value, m) => writeMem fisicDirWrite value m

end SistemasOperativos
