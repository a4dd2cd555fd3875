import SistemasOperativos.Proofs.ByteArray
import SistemasOperativos.Proofs.Evictions
import SistemasOperativos.Memory.Swap

/-!
# What the requests leave in the memory and in the swap

Page tables, frames, faults and suspensions decide which bytes of the memory a page stands for;
they never touch the bytes.  No page is ever modified, so a suspension saves none, and no page is
ever replaced, so a fault fetches none.  With the tables forgotten the module is one array of bytes,
which the writes of all processes share, beside swap files that are made and deleted only.
-/

open Splice

namespace SistemasOperativos

/-! ## The storage -/

/-- The bytes of the memory and the swap files. -/
structure Storage (Swap : Type) where
  array : ℕ → UInt8
  swap : Swap

/-- What a request does to them.  It is a write, or it makes or deletes a swap file. -/
def Storage.after {Swap : Type} (store : SwapStore Swap) (storage : Storage Swap) :
    MemoryAction → Storage Swap
  | .memoryWrite address value =>
      if address = 0 then storage
      else { storage with array := overwrite storage.array address.toNat value.bytes }
  | .processNew pid processSize =>
      if pid = 0 then storage
      else { storage with swap := store.createSwap pid processSize storage.swap }
  | .processExit pid _ _ =>
      if pid = 0 then storage else { storage with swap := store.deleteSwap pid storage.swap }
  | _ => storage

namespace Memory

variable {Swap : Type} {cfg : MemoryConfig} {host : Host} {store : SwapStore Swap}
  {m m' : Memory Swap} {storage : Storage Swap}

/-- The module has the bytes and the swap files of the storage. -/
def Stores (cfg : MemoryConfig) (m : Memory Swap) (storage : Storage Swap) : Prop :=
  Represents cfg.memorySize m.memory storage.array ∧ m.swap = storage.swap

theorem start_stores (swap : Swap) : (start cfg swap).Stores cfg ⟨fun _ => 0, swap⟩ :=
  ⟨MemoryCall.represents_start cfg swap, rfl⟩

/-- The bytes and the swap files alone say what the storage is. -/
theorem Stores.of_eq (hm : m.Stores cfg storage) (hmemory : m'.memory = m.memory)
    (hswap : m'.swap = m.swap) : m'.Stores cfg storage :=
  ⟨hmemory ▸ hm.1, hswap.trans hm.2⟩

/-! ## The requests of the kernel -/

theorem processNew_stores (pid processSize : Word) (hm : m.Stores cfg storage) :
    (m.processNew cfg store pid processSize).1.Stores cfg
      (storage.after store (.processNew pid processSize)) := by
  by_cases hpid : pid = 0
  · rw [processNew, if_pos hpid, Storage.after, if_pos hpid]
    exact hm
  · rw [processNew, if_neg hpid, Storage.after, if_neg hpid]
    simp only [assignProcessFrames, pageTableInit, addLevel2Tables_eq]
    exact ⟨hm.1, by rw [hm.2]⟩

theorem unassignProcessFrames_stores {k : ℕ} (h : m.unassignProcessFrames k = some m')
    (hm : m.Stores cfg storage) : m'.Stores cfg storage := by
  obtain ⟨bitmap, processes, rfl, -⟩ := unassignProcessFrames_eq h
  exact hm

/-- A page that is not modified is not saved. -/
theorem suspendEntry_stores {pid : Word} {k : ℕ} {id : PageId}
    (h : m.suspendEntry cfg host store pid k id = some m') (hclear : m.BitsClear)
    (hm : m.Stores cfg storage) : m'.Stores cfg storage := by
  unfold suspendEntry at h
  split at h
  · cases h
  rename_i page hpage
  simp only [(hclear id page hpage).2, Bool.false_eq_true, and_false, if_false] at h
  exact unassignProcessFrames_stores h hm

theorem processSuspend_stores {pid pt1Index processFramesIndex : Word}
    {answer : Option MemoryAnswer}
    (h : m.processSuspend cfg host store pid pt1Index processFramesIndex = some (m', answer))
    (hclear : m.BitsClear) (hm : m.Stores cfg storage) : m'.Stores cfg storage := by
  have hboth : m'.BitsClear ∧ m'.Stores cfg storage := by
    apply @processSuspend_invariant _ _ _ _ _ _ _
      (fun m => m.BitsClear ∧ m.Stores cfg storage) _ _ _ h
    · rintro m m' id ⟨hclear, hm⟩ h
      exact ⟨suspendEntry_bitsClear h hclear, suspendEntry_stores h hclear hm⟩
    · exact ⟨hclear, hm⟩
  exact hboth.2

theorem processExit_stores {pid processFramesIndex : Word} (pt1Index : Word)
    {answer : Option MemoryAnswer}
    (h : m.processExit store pid processFramesIndex = some (m', answer))
    (hm : m.Stores cfg storage) :
    m'.Stores cfg (storage.after store (.processExit pid pt1Index processFramesIndex)) := by
  unfold processExit at h
  split at h
  · rename_i hpid
    cases h
    rw [Storage.after, if_pos hpid]
    exact hm
  · rename_i hpid
    obtain ⟨released, hreleased, heq⟩ := Option.map_eq_some_iff.1 h
    cases heq
    rw [Storage.after, if_neg hpid]
    have hkept := unassignProcessFrames_stores hreleased hm
    exact ⟨hkept.1, by rw [hkept.2]⟩

/-! ## The requests of the CPU -/

/-- A fault takes a frame as it is. -/
theorem getFrameNumber_stores {id : PageId} {pid : Word} {found : Option ℕ} {frame : ℤ}
    (h : m.getFrameNumber cfg host store id pid found = some (m', frame))
    (hfull : m.FullEmpty cfg) (hm : m.Stores cfg storage) : m'.Stores cfg storage := by
  rcases getFrameNumber_cases h hfull with ⟨page, -, -, rfl, -⟩ | ⟨page, -, -, rfl, -⟩ |
    ⟨page, k, process, free, i, -, -, -, -, -, -, rfl, -⟩
  · exact hm
  · exact hm
  · exact hm.of_eq rfl rfl

theorem memoryWrite_stores {address value : Word} {answer : Option MemoryAnswer}
    (h : m.memoryWrite address value = some (m', answer)) (hm : m.Stores cfg storage) :
    m'.Stores cfg (storage.after store (.memoryWrite address value)) := by
  by_cases hzero : address = 0
  · rw [memoryWrite, if_pos hzero] at h
    cases h
    rw [Storage.after, if_pos hzero]
    exact hm
  · rw [memoryWrite, if_neg hzero] at h
    obtain ⟨written, hwritten, heq⟩ := Option.map_eq_some_iff.1 h
    cases heq
    rw [Storage.after, if_neg hzero]
    unfold writeBytes at hwritten
    split at hwritten <;> cases hwritten
    rename_i hinside
    refine ⟨represents_splice hm.1 ?_, hm.2⟩
    rw [← hm.1.1]
    exact hinside.2

/-! ## Runs -/

theorem handle_stores {action : MemoryAction} {answer : Option MemoryAnswer}
    (h : m.handle cfg host store action = some (m', answer)) (hfull : m.FullEmpty cfg)
    (hclear : m.BitsClear) (hm : m.Stores cfg storage) :
    m'.Stores cfg (storage.after store action) := by
  cases action with
  | processNew pid processSize =>
      have heq : (m.processNew cfg store pid processSize).1 = m' :=
        congrArg Prod.fst (Option.some.inj h)
      exact heq ▸ processNew_stores pid processSize hm
  | processSuspend pid pt1Index processFramesIndex => exact processSuspend_stores h hclear hm
  | processExit pid pt1Index processFramesIndex => exact processExit_stores pt1Index h hm
  | accessLvl1Table pt1Index entryIndex =>
      simp only [handle, accessLvl1Table] at h
      split at h
      · cases h
        exact hm
      · obtain ⟨pt2Index, -, heq⟩ := Option.map_eq_some_iff.1 h
        cases heq
        exact hm
  | accessLvl2Table pid pt2Index entryIndex processFramesIndex found =>
      simp only [handle, accessLvl2Table] at h
      split at h
      · cases h
        exact hm
      · obtain ⟨⟨m₁, frame⟩, hframe, heq⟩ := Option.map_eq_some_iff.1 h
        cases heq
        exact getFrameNumber_stores hframe hfull hm
  | memoryRead address =>
      simp only [handle, memoryRead] at h
      repeat' split at h
      all_goals cases h
      all_goals exact hm
  | memoryWrite address value => exact memoryWrite_stores h hm

/-- What is read inside of the memory is what is stored there. -/
theorem Stores.memoryRead_eq {address : Word} (hm : m.Stores cfg storage) (hne : address ≠ 0)
    (hinside : address.toNat + 4 ≤ cfg.memorySize) :
    m.memoryRead address =
      some (m, some (.readAnswer (Word.ofBytes (items storage.array address.toNat 4)))) := by
  have hbytes : (m.memory.drop address.toNat).take 4 = items storage.array address.toNat 4 :=
    slice_of_represents hm.1 hinside
  rw [memoryRead, if_neg hne, if_pos (hm.1.1.symm ▸ hinside), hbytes]

theorem stores_run {actions : List MemoryAction} {swap : Swap}
    (h : (memoryModule cfg host store swap).run actions m = some m') (hfull : m.FullEmpty cfg)
    (hclear : m.BitsClear) (hm : m.Stores cfg storage) :
    m'.Stores cfg (actions.foldl (Storage.after store) storage) := by
  induction actions generalizing m storage with
  | nil =>
      obtain rfl : m = m' := Option.some.inj h
      exact hm
  | cons action rest ih =>
      rw [Machine.run] at h
      split at h
      · cases h
      rename_i next hstep
      obtain ⟨⟨next, answer⟩, hhandle, rfl⟩ := Option.map_eq_some_iff.1 hstep
      exact ih h (handle_fullEmpty hhandle hfull) (handle_bitsClear hhandle hfull hclear)
        (handle_stores hhandle hfull hclear hm)

/-- After any run the memory is the array that the writes of all processes make of a memory of
zeros, whatever was created, accessed, suspended and ended in between; a read answers what the
array has there, and the swap is what its files' creations and deletions make of it. -/
theorem storage_of_run {actions : List MemoryAction} {swap : Swap}
    (h : (memoryModule cfg host store swap).run actions (start cfg swap) = some m) :
    let storage := actions.foldl (Storage.after store) ⟨fun _ => 0, swap⟩
    Represents cfg.memorySize m.memory storage.array ∧ m.swap = storage.swap ∧
      ∀ address : Word, address ≠ 0 → address.toNat + 4 ≤ cfg.memorySize →
        m.memoryRead address =
          some (m, some (.readAnswer (Word.ofBytes (items storage.array address.toNat 4)))) := by
  have hm : m.Stores cfg (actions.foldl (Storage.after store) ⟨fun _ => 0, swap⟩) :=
    stores_run h nofun (fun id page hpage => by simp [start, page?] at hpage) (start_stores swap)
  exact ⟨hm.1, hm.2, fun address hne hinside => hm.memoryRead_eq hne hinside⟩

/-- A process writes and ends; the next one gets its frame, and reads what was written. -/
theorem storage_of_run_small : ∃ m,
    (memoryModuleSmall 4).run
      [.processNew 1 16, .accessLvl2Table 1 0 1 0 (some 0), .memoryWrite 4 7, .processExit 1 0 0,
        .processNew 2 16, .accessLvl2Table 2 1 0 1 (some 1)]
      (start (.small 4) fun _ _ => []) = some m ∧
    m.memoryRead 4 = some (m, some (.readAnswer 7)) := by
  have hruns : ((memoryModuleSmall 4).run
      [.processNew 1 16, .accessLvl2Table 1 0 1 0 (some 0), .memoryWrite 4 7, .processExit 1 0 0,
        .processNew 2 16, .accessLvl2Table 2 1 0 1 (some 1)]
      (start (.small 4) fun _ _ => [])).isSome = true := by
    decide +kernel
  obtain ⟨m, hrun⟩ := Option.isSome_iff_exists.1 hruns
  have hread := (storage_of_run hrun).2.2 4 (by decide) (by decide)
  refine ⟨m, hrun, hread.trans ?_⟩
  congr 4

/-! ## Swap files -/

/-- The size with which the swap file of a pid was made last, while it has one. -/
def swapSize (pid : Word) (size : Option Word) : MemoryAction → Option Word
  | .processNew pid' processSize => if pid' = pid ∧ pid' ≠ 0 then some processSize else size
  | .processExit pid' _ _ => if pid' = pid ∧ pid' ≠ 0 then none else size
  | _ => size

/-- A file of zeros, if there is one. -/
def zeroFile (size : Option Word) : Option Bytes :=
  size.map fun size => List.replicate size.toNat 0

/-- A file of zeros that is made again has its new size and zeros. -/
theorem createSwap_zeroFile {files : SwapFiles} {pid : Word} {size : Option Word}
    (hfile : files pid = zeroFile size) (processSize : Word) :
    files.createSwap pid processSize =
      Function.update files pid (zeroFile (some processSize)) := by
  have hzeros : ∃ n, files.contents pid = List.replicate n 0 := by
    rw [SwapFiles.contents, hfile]
    cases size with
    | none => exact ⟨0, rfl⟩
    | some size => exact ⟨size.toNat, rfl⟩
  obtain ⟨n, hn⟩ := hzeros
  funext pid'
  by_cases hpid : pid' = pid
  · subst hpid
    simp only [SwapFiles.createSwap, SwapFiles.ftruncate, SwapFiles.contents_fopen, hn,
      Function.update_self, zeroFile, Option.map_some, List.take_replicate, List.length_replicate,
      List.replicate_append_replicate]
    congr 2
    omega
  · simp [SwapFiles.createSwap, SwapFiles.ftruncate, SwapFiles.fopen, hpid]

/-- Each request keeps the files of zeros. -/
theorem after_zeroFile {heap : Bytes} {storage : Storage SwapFiles} {sizes : Word → Option Word}
    (hfiles : ∀ pid, storage.swap pid = zeroFile (sizes pid)) (action : MemoryAction) (pid : Word) :
    (storage.after (fileStore cfg heap) action).swap pid =
      zeroFile (swapSize pid (sizes pid) action) := by
  cases action with
  | processNew pid' processSize =>
      simp only [Storage.after, swapSize]
      by_cases hzero : pid' = 0
      · simp [hzero, hfiles]
      · rw [if_neg hzero]
        simp only [fileStore, createSwap_zeroFile (hfiles pid')]
        by_cases hpid : pid' = pid
        · subst hpid
          rw [Function.update_self, if_pos ⟨rfl, hzero⟩]
        · rw [Function.update_of_ne (Ne.symm hpid), if_neg fun h => hpid h.1, hfiles]
  | processExit pid' pt1Index processFramesIndex =>
      simp only [Storage.after, swapSize]
      by_cases hzero : pid' = 0
      · simp [hzero, hfiles]
      · rw [if_neg hzero]
        simp only [fileStore, SwapFiles.deleteSwap]
        by_cases hpid : pid' = pid
        · subst hpid
          rw [Function.update_self, if_pos ⟨rfl, hzero⟩]
          rfl
        · rw [Function.update_of_ne (Ne.symm hpid), if_neg fun h => hpid h.1, hfiles]
  | memoryWrite address value =>
      simp only [Storage.after, swapSize]
      split
      · exact hfiles pid
      · exact hfiles pid
  | processSuspend pid' pt1Index processFramesIndex => exact hfiles pid
  | accessLvl1Table pt1Index entryIndex => exact hfiles pid
  | accessLvl2Table pid' pt2Index entryIndex processFramesIndex found => exact hfiles pid
  | memoryRead address => exact hfiles pid

/-- With the swap files as coded, and none at the start: a pid has one from its creation to its
exit, of the size announced last, and every byte in it is zero at every moment of every run. -/
theorem swapFiles_of_run {heap : Bytes} {m : Memory SwapFiles} {actions : List MemoryAction}
    (h : (memoryModule cfg host (fileStore cfg heap) fun _ => none).run actions
      (start cfg fun _ => none) = some m) (pid : Word) :
    m.swap pid = zeroFile (actions.foldl (swapSize pid) none) := by
  have hm : m.Stores cfg
      (actions.foldl (Storage.after (fileStore cfg heap)) ⟨fun _ => 0, fun _ => none⟩) :=
    stores_run h nofun (fun id page hpage => by simp [start, page?] at hpage) (start_stores _)
  have hfold : ∀ (actions : List MemoryAction) (storage : Storage SwapFiles)
      (sizes : Word → Option Word), (∀ pid, storage.swap pid = zeroFile (sizes pid)) →
      (actions.foldl (Storage.after (fileStore cfg heap)) storage).swap pid =
        zeroFile (actions.foldl (swapSize pid) (sizes pid)) := by
    intro actions
    induction actions with
    | nil => exact fun storage sizes hfiles => hfiles pid
    | cons action rest ih =>
        intro storage sizes hfiles
        exact ih _ (fun pid => swapSize pid (sizes pid) action)
          fun pid => after_zeroFile hfiles action pid
  rw [hm.2]
  exact hfold actions _ (fun _ => none) fun _ => rfl

/-- A process writes and is suspended, and its file has zeros; that of a process that ended is
gone. -/
theorem swapFiles_of_run_small : ∃ m : Memory SwapFiles,
    (memoryModule (.small 4) .direct (fileStore (.small 4) []) fun _ => none).run
      [.processNew 1 8, .processNew 2 8, .accessLvl2Table 1 0 0 0 (some 0), .memoryWrite 4 7,
        .processSuspend 1 0 0, .processExit 2 1 1]
      (start (.small 4) fun _ => none) = some m ∧
    m.swap 1 = some [0, 0, 0, 0, 0, 0, 0, 0] ∧ m.swap 2 = none := by
  have hruns : ((memoryModule (.small 4) .direct (fileStore (.small 4) []) fun _ => none).run
      [.processNew 1 8, .processNew 2 8, .accessLvl2Table 1 0 0 0 (some 0), .memoryWrite 4 7,
        .processSuspend 1 0 0, .processExit 2 1 1]
      (start (.small 4) fun _ => none)).isSome = true := by
    decide +kernel
  obtain ⟨m, hrun⟩ := Option.isSome_iff_exists.1 hruns
  exact ⟨m, hrun, swapFiles_of_run hrun 1, swapFiles_of_run hrun 2⟩

end Memory
end SistemasOperativos
