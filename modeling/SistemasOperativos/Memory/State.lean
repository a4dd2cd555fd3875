import SistemasOperativos.Shared.Stream
import Mathlib.Algebra.Group.Nat.Defs
import Mathlib.Data.Int.Notation

/-!
# The state of the memory module

The globals of the memory module (`memory/include/utils.h`, `memory/include/page_table.h`): the
memory itself, the bitmap of its frames, the page tables and the frames of each process.

The swap files are a parameter, `SwapStore`, and so is what the host's address space holds where
the code uses a number as a pointer or a pointer as a number, `Host`.
-/

namespace SistemasOperativos

/-! ## Configuration -/

/-- `enum e_replaceAlgorithm`. -/
inductive ReplaceAlgorithm
  | clock | clockM
deriving DecidableEq, Repr

/-- `t_memory_config`.  Its values are of type `int`, and the module divides by two of them. -/
structure MemoryConfig where
  memorySize : ℕ
  pageSize : ℕ
  entriesPerTable : ℕ
  framesPerProcess : ℕ
  replaceAlgorithm : ReplaceAlgorithm
  memorySize_lt : memorySize < 2 ^ 31
  pageSize_pos : 0 < pageSize
  entriesPerTable_pos : 0 < entriesPerTable

def MemoryConfig.framesInMemory (cfg : MemoryConfig) : ℕ :=
  cfg.memorySize / cfg.pageSize

/-- A page of zeros. -/
def MemoryConfig.zeroPage (cfg : MemoryConfig) : Bytes :=
  List.replicate cfg.pageSize 0

/-- Three frames of eight bytes. -/
def MemoryConfig.small (framesPerProcess : ℕ) : MemoryConfig where
  memorySize := 24
  pageSize := 8
  entriesPerTable := 2
  framesPerProcess := framesPerProcess
  replaceAlgorithm := .clockM
  memorySize_lt := by decide
  pageSize_pos := by decide
  entriesPerTable_pos := by decide

/-! ## Surroundings -/

/-- The functions of `memory/src/swap.c` on the swap files. -/
structure SwapStore (Swap : Type) where
  createSwap : Word → Word → Swap → Swap
  swapWritePage : Word → ℕ → Bytes → Swap → Swap
  swapGetPage : Word → ℕ → Swap → Bytes
  deleteSwap : Word → Swap → Swap

/-- The swap files keep pages: what is read is what was written last, and zeros at first. -/
structure SwapStore.Faithful {Swap : Type} (store : SwapStore Swap) (cfg : MemoryConfig) :
    Prop where
  get_create : ∀ pid size page swap,
    store.swapGetPage pid page (store.createSwap pid size swap) = cfg.zeroPage
  get_create_of_ne : ∀ pid size pid' page swap, pid' ≠ pid →
    store.swapGetPage pid' page (store.createSwap pid size swap) =
      store.swapGetPage pid' page swap
  get_write : ∀ pid page data swap,
    store.swapGetPage pid page (store.swapWritePage pid page data swap) = data
  get_write_of_ne : ∀ pid page data pid' page' swap, (pid', page') ≠ (pid, page) →
    store.swapGetPage pid' page' (store.swapWritePage pid page data swap) =
      store.swapGetPage pid' page' swap

/-- A store that keeps every page of every pid. -/
def pageStore (cfg : MemoryConfig) : SwapStore (Word → ℕ → Bytes) where
  createSwap pid _ swap pid' page := if pid' = pid then cfg.zeroPage else swap pid' page
  swapWritePage pid page data swap pid' page' :=
    if (pid', page') = (pid, page) then data else swap pid' page'
  swapGetPage pid page swap := swap pid page
  deleteSwap _ swap := swap

theorem pageStore_faithful (cfg : MemoryConfig) : (pageStore cfg).Faithful cfg where
  get_create _ _ _ _ := if_pos rfl
  get_create_of_ne _ _ _ _ _ hne := if_neg hne
  get_write _ _ _ _ := if_pos rfl
  get_write_of_ne _ _ _ _ _ _ hne := if_neg hne

/-- What the host's address space holds where the code confuses numbers and pointers. -/
structure Host where
  /-- `*((int *)list_get(entries, i))`: the number in a level-1 entry, taken as a pointer. -/
  deref : ℕ → Option ℕ
  /-- `(int)curr_frame`: the address of an entry of the frame list of a process. -/
  frameEntryAddress : ℕ → ℕ → Word
  /-- The page read through the pointer that `get_frame_value` makes of the bytes it copies. -/
  pageAt : Bytes → Option Bytes
  /-- The bytes `write_frame_value` copies: those of the pointer to a page, and what follows. -/
  valueBytes : Bytes → Bytes

/-- A host on which a level-1 entry leads to the level-2 table it names. -/
def Host.direct : Host where
  deref := some
  frameEntryAddress _ _ := 0
  pageAt := some
  valueBytes := id

/-! ## Page tables and frames -/

/-- `t_page_entry`. -/
structure PageEntry where
  frame : ℤ
  present : Bool
  used : Bool
  modified : Bool
  page : ℕ
deriving DecidableEq, Repr

/-- A pointer to a `t_page_entry`: its level-2 table and its place there. -/
structure PageId where
  table : ℕ
  entry : ℕ
deriving DecidableEq, Repr

/-- `t_frame_entry`. -/
structure FrameEntry where
  frame : ℤ
  pageData : Option PageId
deriving DecidableEq, Repr

/-- `t_process_frame`. -/
structure ProcessFrame where
  frames : List FrameEntry
  clockHand : ℕ
deriving DecidableEq, Repr

/-- What happens to a page, for statements about whole runs.  No step reads it. -/
inductive PageEvent
  /-- The page becomes resident; its frame then has these bytes. -/
  | loaded (page : PageId) (bytes : Bytes)
  /-- The page is resident no more; its frame had these bytes. -/
  | left (page : PageId) (bytes : Bytes)
deriving DecidableEq, Repr

/-- The globals of the memory module. -/
structure Memory (Swap : Type) where
  memory : Bytes
  framesBitmap : List Bool
  level1Tables : List (List ℕ) := []
  level2Tables : List (List PageEntry) := []
  processesFrames : List ProcessFrame := []
  swap : Swap
  /-- The pid for which each level-2 table was made.  History only. -/
  owners : List Word := []
  history : List PageEvent := []

/-- `memory_init`. -/
def Memory.start {Swap : Type} (cfg : MemoryConfig) (swap : Swap) : Memory Swap where
  memory := List.replicate cfg.memorySize 0
  framesBitmap := List.replicate cfg.framesInMemory false
  swap := swap

namespace Memory

variable {Swap : Type} (cfg : MemoryConfig) (m : Memory Swap)

/-- The page entry behind a pointer. -/
def page? (id : PageId) : Option PageEntry :=
  m.level2Tables[id.table]? >>= fun entries => entries[id.entry]?

/-- An assignment to the fields of a page entry. -/
def modifyPage (id : PageId) (f : PageEntry → PageEntry) : Memory Swap :=
  { m with level2Tables := m.level2Tables.modify id.table fun entries => entries.modify id.entry f }

/-- An assignment to the fields of entry `i` of frame list `k`. -/
def modifyFrame (k i : ℕ) (f : FrameEntry → FrameEntry) : Memory Swap :=
  { m with
    processesFrames := m.processesFrames.modify k fun process =>
      { process with frames := process.frames.modify i f } }

/-- The bytes of a frame. -/
def frameBytes (frame : ℤ) : Bytes :=
  (m.memory.drop (frame.toNat * cfg.pageSize)).take cfg.pageSize

/-- `memcpy` into the memory.  Outside of it the behaviour is undefined. -/
def writeBytes (start : ℤ) (data : Bytes) : Option (Memory Swap) :=
  if 0 ≤ start ∧ start.toNat + data.length ≤ m.memory.length then
    some { m with
      memory := m.memory.take start.toNat ++ data ++ m.memory.drop (start.toNat + data.length) }
  else none

/-- A write changes bytes only. -/
theorem writeBytes_eq_some {m m' : Memory Swap} {start : ℤ} {data : Bytes}
    (h : m.writeBytes start data = some m') :
    ∃ memory, m' = { m with memory := memory } ∧ memory.length = m.memory.length := by
  unfold writeBytes at h
  split at h <;> cases h
  rename_i hinside
  refine ⟨_, rfl, ?_⟩
  simp only [List.length_append, List.length_take, List.length_drop]
  omega

end Memory

end SistemasOperativos
