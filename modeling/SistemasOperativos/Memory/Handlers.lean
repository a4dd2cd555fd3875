import SistemasOperativos.Library.Machine
import SistemasOperativos.Memory.PageTable

/-!
# The handlers of the memory module

The requests of the kernel and the CPU (`memory/src/memory.c`).  A handler gives the state after
it and the packet it sends, if it sends one; it is `none` where the module crashes.
-/

namespace SistemasOperativos

/-- The packets of the memory module. -/
inductive MemoryAnswer
  | processMemoryReady (pid pt1Index processFramesIndex : Word)
  | processSuspensionReady
  | processExitReady (pid : Word)
  | table2ToCpu (pt2Index : Word)
  | frameToCpu (frame : Word)
  | readAnswer (value : Word)
  | writeSuccess
deriving DecidableEq, Repr

namespace Memory

variable {Swap : Type}

/-! ## Requests of the kernel -/

/-- `process_new`. -/
def processNew (cfg : MemoryConfig) (store : SwapStore Swap) (pid processSize : Word)
    (m : Memory Swap) : Memory Swap × Option MemoryAnswer :=
  if pid = 0 then (m, none)
  else
    let m' := (m.pageTableInit cfg pid processSize).assignProcessFrames cfg
    ({ m' with swap := store.createSwap pid processSize m'.swap },
      some (.processMemoryReady pid (BitVec.ofNat 32 m.level1Tables.length)
        (BitVec.ofNat 32 m.processesFrames.length)))

/-- The body of the inner loop of `process_suspend`. -/
def suspendEntry (cfg : MemoryConfig) (host : Host) (store : SwapStore Swap) (pid : Word) (k : ℕ)
    (m : Memory Swap) (id : PageId) : Option (Memory Swap) :=
  match m.page? id with
  | none => none
  | some entry =>
      let events :=
        if entry.present then [PageEvent.left id (m.frameBytes cfg entry.frame)] else []
      let saved :=
        if entry.present ∧ entry.modified then
          (m.saveSwap cfg host store entry.frame entry.page pid).map fun m =>
            m.modifyPage id fun page => { page with modified := false }
        else some m
      match saved with
      | none => none
      | some m =>
          let m := m.modifyPage id fun page => { page with present := false, frame := -1 }
          { m with history := m.history ++ events }.unassignProcessFrames k

/-- The body of the outer loop of `process_suspend`, on an entry of the level-1 table. -/
def suspendTable (cfg : MemoryConfig) (host : Host) (store : SwapStore Swap) (pid : Word) (k : ℕ)
    (m : Memory Swap) (level1Entry : ℕ) : Option (Memory Swap) :=
  match host.deref level1Entry with
  | none => none
  | some table =>
      match m.level2Tables[table]? with
      | none => none
      | some entries =>
          (List.range entries.length).foldlM
            (fun m j => m.suspendEntry cfg host store pid k ⟨table, j⟩) m

/-- `process_suspend`. -/
def processSuspend (cfg : MemoryConfig) (host : Host) (store : SwapStore Swap)
    (pid pt1Index processFramesIndex : Word) (m : Memory Swap) :
    Option (Memory Swap × Option MemoryAnswer) :=
  if pid = 0 then some (m, none)
  else
    match m.level1Tables[pt1Index.toNat]? with
    | none => none
    | some entries =>
        (entries.foldlM (suspendTable cfg host store pid processFramesIndex.toNat) m).map
          fun m => (m, some .processSuspensionReady)

/-- `process_exit`. -/
def processExit (store : SwapStore Swap) (pid processFramesIndex : Word) (m : Memory Swap) :
    Option (Memory Swap × Option MemoryAnswer) :=
  if pid = 0 then some (m, none)
  else
    (m.unassignProcessFrames processFramesIndex.toNat).map fun m =>
      ({ m with swap := store.deleteSwap pid m.swap }, some (.processExitReady pid))

/-! ## Requests of the CPU -/

/-- `access_lvl1_table`. -/
def accessLvl1Table (host : Host) (pt1Index entryIndex : Word) (m : Memory Swap) :
    Option (Memory Swap × Option MemoryAnswer) :=
  if pt1Index = -1 then some (m, none)
  else
    (m.getPageTable2Index host pt1Index.toNat entryIndex.toNat).map fun pt2Index =>
      (m, some (.table2ToCpu (BitVec.ofNat 32 pt2Index)))

/-- `access_lvl2_table`. -/
def accessLvl2Table (cfg : MemoryConfig) (host : Host) (store : SwapStore Swap)
    (pid pt2Index entryIndex : Word) (found : Option ℕ) (m : Memory Swap) :
    Option (Memory Swap × Option MemoryAnswer) :=
  if pt2Index = -1 then some (m, none)
  else
    (m.getFrameNumber cfg host store ⟨pt2Index.toNat, entryIndex.toNat⟩ pid found).map
      fun (m, frame) => (m, some (.frameToCpu (BitVec.ofInt 32 frame)))

/-- The bytes `memory_read` and `memory_write` touch: none at address 0, which they take for a
missing address. -/
def touched (address : Word) : List ℕ :=
  if address = 0 then [] else (List.range 4).map (address.toNat + ·)

/-- `memory_write`. -/
def memoryWrite (address value : Word) (m : Memory Swap) :
    Option (Memory Swap × Option MemoryAnswer) :=
  if address = 0 then some (m, none)
  else (m.writeBytes address.toNat value.bytes).map fun m => (m, some .writeSuccess)

/-- `memory_read`. -/
def memoryRead (address : Word) (m : Memory Swap) : Option (Memory Swap × Option MemoryAnswer) :=
  if address = 0 then some (m, none)
  else if address.toNat + 4 ≤ m.memory.length then
    some (m, some (.readAnswer (Word.ofBytes ((m.memory.drop address.toNat).take 4))))
  else none

end Memory

/-! ## One step of the module -/

/-- A request is handled.  The last argument of an access to a level-2 table is the frame list
`get_frame_number` finds. -/
inductive MemoryAction
  | processNew (pid processSize : Word)
  | processSuspend (pid pt1Index processFramesIndex : Word)
  | processExit (pid pt1Index processFramesIndex : Word)
  | accessLvl1Table (pt1Index entryIndex : Word)
  | accessLvl2Table (pid pt2Index entryIndex processFramesIndex : Word) (found : Option ℕ)
  | memoryRead (address : Word)
  | memoryWrite (address value : Word)
deriving DecidableEq, Repr

namespace Memory

variable {Swap : Type}

/-- The handler of a request. -/
def handle (cfg : MemoryConfig) (host : Host) (store : SwapStore Swap) :
    MemoryAction → Memory Swap → Option (Memory Swap × Option MemoryAnswer)
  | .processNew pid processSize, m => some (m.processNew cfg store pid processSize)
  | .processSuspend pid pt1Index processFramesIndex, m =>
      m.processSuspend cfg host store pid pt1Index processFramesIndex
  | .processExit pid _ processFramesIndex, m => m.processExit store pid processFramesIndex
  | .accessLvl1Table pt1Index entryIndex, m => m.accessLvl1Table host pt1Index entryIndex
  | .accessLvl2Table pid pt2Index entryIndex _ found, m =>
      m.accessLvl2Table cfg host store pid pt2Index entryIndex found
  | .memoryRead address, m => m.memoryRead address
  | .memoryWrite address value, m => m.memoryWrite address value

/-! ## What a handler does -/

variable {Swap : Type} {cfg : MemoryConfig} {host : Host} {store : SwapStore Swap}
  {m m' : Memory Swap} {answer : Option MemoryAnswer}

/-- What the iterations over the pages keep, `process_suspend` keeps. -/
theorem processSuspend_invariant {Inv : Memory Swap → Prop}
    {pid pt1Index processFramesIndex : Word}
    (h : m.processSuspend cfg host store pid pt1Index processFramesIndex = some (m', answer))
    (hentry : ∀ m m' id, Inv m →
      m.suspendEntry cfg host store pid processFramesIndex.toNat id = some m' → Inv m')
    (hm : Inv m) : Inv m' := by
  unfold processSuspend at h
  split at h
  · cases h
    exact hm
  split at h
  · cases h
  obtain ⟨suspended, hsuspended, heq⟩ := Option.map_eq_some_iff.1 h
  cases heq
  refine Machine.foldlM_invariant (fun m₁ table m₂ hm₁ h₁ => ?_) hm hsuspended
  unfold suspendTable at h₁
  split at h₁
  · cases h₁
  split at h₁
  · cases h₁
  exact Machine.foldlM_invariant (fun _ _ _ hm h => hentry _ _ _ hm h) hm₁ h₁

theorem processExit_eq_some {pid processFramesIndex : Word}
    (h : m.processExit store pid processFramesIndex = some (m', answer)) :
    m' = m ∨ ∃ released, m.unassignProcessFrames processFramesIndex.toNat = some released ∧
      m' = { released with swap := store.deleteSwap pid released.swap } := by
  unfold processExit at h
  split at h
  · cases h
    exact .inl rfl
  · obtain ⟨released, hreleased, heq⟩ := Option.map_eq_some_iff.1 h
    cases heq
    exact .inr ⟨released, hreleased, rfl⟩

/-- A request of the kernel does what its handler does; one of the CPU finds a frame, writes to
the memory or changes nothing. -/
theorem handle_elim {motive : Memory Swap → Prop} {action : MemoryAction}
    (h : m.handle cfg host store action = some (m', answer))
    (create : ∀ pid processSize, action = .processNew pid processSize →
      motive (m.processNew cfg store pid processSize).1)
    (suspend : ∀ pid pt1Index processFramesIndex m',
      action = .processSuspend pid pt1Index processFramesIndex →
      m.processSuspend cfg host store pid pt1Index processFramesIndex = some (m', answer) →
      motive m')
    (exit : ∀ pid pt1Index processFramesIndex m',
      action = .processExit pid pt1Index processFramesIndex →
      m.processExit store pid processFramesIndex = some (m', answer) → motive m')
    (access : ∀ pid pt2Index entryIndex processFramesIndex found m' frame,
      action = .accessLvl2Table pid pt2Index entryIndex processFramesIndex found →
      m.getFrameNumber cfg host store ⟨pt2Index.toNat, entryIndex.toNat⟩ pid found =
        some (m', frame) → motive m')
    (write : ∀ memory, memory.length = m.memory.length → motive { m with memory := memory })
    (same : motive m) : motive m' := by
  cases action with
  | processNew pid processSize =>
      have heq : (m.processNew cfg store pid processSize).1 = m' :=
        congrArg Prod.fst (Option.some.inj h)
      exact heq ▸ create pid processSize rfl
  | processSuspend pid pt1Index processFramesIndex => exact suspend _ _ _ _ rfl h
  | processExit pid pt1Index processFramesIndex => exact exit _ _ _ _ rfl h
  | accessLvl1Table pt1Index entryIndex =>
      simp only [handle, accessLvl1Table] at h
      split at h
      · cases h
        exact same
      · obtain ⟨pt2Index, -, heq⟩ := Option.map_eq_some_iff.1 h
        cases heq
        exact same
  | accessLvl2Table pid pt2Index entryIndex processFramesIndex found =>
      simp only [handle, accessLvl2Table] at h
      split at h
      · cases h
        exact same
      · obtain ⟨⟨m₁, frame⟩, hframe, heq⟩ := Option.map_eq_some_iff.1 h
        cases heq
        exact access _ _ _ _ _ _ _ rfl hframe
  | memoryRead address =>
      simp only [handle, memoryRead] at h
      repeat' split at h
      all_goals cases h
      all_goals exact same
  | memoryWrite address value =>
      simp only [handle, memoryWrite] at h
      split at h
      · cases h
        exact same
      · obtain ⟨written, hwritten, heq⟩ := Option.map_eq_some_iff.1 h
        cases heq
        obtain ⟨memory, rfl, hlength⟩ := writeBytes_eq_some hwritten
        exact write memory hlength

end Memory

/-- The memory module, started. -/
def memoryModule {Swap : Type} (cfg : MemoryConfig) (host : Host) (store : SwapStore Swap)
    (swap : Swap) : Machine (Memory Swap) MemoryAction where
  initial := Memory.start cfg swap
  step action m := (m.handle cfg host store action).map Prod.fst

/-- The memory module with small parameters and a faithful store. -/
def memoryModuleSmall (framesPerProcess : ℕ) :
    Machine (Memory (Word → ℕ → Bytes)) MemoryAction :=
  memoryModule (.small framesPerProcess) .direct (pageStore (.small framesPerProcess))
    fun _ _ => []

end SistemasOperativos
