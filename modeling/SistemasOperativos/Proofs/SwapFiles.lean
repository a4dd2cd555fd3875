import SistemasOperativos.Memory.Swap

/-!
# The swap files as arrays of pages

What the swap store is for is an array of pages for each pid: a page read is the page written
last.  The files are opened with mode `"ab+"`, so every write goes to the end of the file, behind
the zeros with which `create_swap` filled it, and no read of a page of the process sees it.
-/

namespace SistemasOperativos

/-! ## Arrays of pages -/

/-- The swap of a process, as an array of pages. -/
structure PageArray where
  pages : ℕ
  page : ℕ → Bytes

/-- The calls of `memory/src/swap.c` on the swap of living processes. -/
inductive SwapCall
  | createSwap (pid processSize : Word)
  | swapWritePage (pid : Word) (page : ℕ) (data : Bytes)
  | swapGetPage (pid : Word) (page : ℕ)
deriving DecidableEq

/-- The arrays of every pid before any call. -/
def PageArray.start : Word → PageArray :=
  fun _ => ⟨0, fun _ => []⟩

namespace SwapCall

variable (cfg : MemoryConfig) (arrays : Word → PageArray) (files : SwapFiles)

/-- What a call does to the arrays. -/
def onArrays : SwapCall → Word → PageArray
  | createSwap pid processSize =>
    Function.update arrays pid ⟨processSize.toNat / cfg.pageSize, fun _ => cfg.zeroPage⟩
  | swapWritePage pid page data =>
    Function.update arrays pid
      { arrays pid with page := Function.update (arrays pid).page page data }
  | swapGetPage _ _ => arrays

/-- What a call does to the files. -/
def onFiles : SwapCall → SwapFiles
  | createSwap pid processSize => files.createSwap pid processSize
  | swapWritePage pid _ data => files.swapWritePage cfg pid data
  | swapGetPage pid page => (files.swapGetPage cfg pid [] page).2

/-- The page of the call is one of its process, and the data written are a page. -/
def Inside : SwapCall → Prop
  | createSwap _ _ => True
  | swapWritePage pid page data => page < (arrays pid).pages ∧ data.length = cfg.pageSize
  | swapGetPage pid page => page < (arrays pid).pages

instance (call : SwapCall) : Decidable (call.Inside cfg arrays) :=
  match call with
  | createSwap _ _ => inferInstanceAs (Decidable True)
  | swapWritePage pid page data =>
    inferInstanceAs (Decidable (page < (arrays pid).pages ∧ data.length = cfg.pageSize))
  | swapGetPage pid page => inferInstanceAs (Decidable (page < (arrays pid).pages))

/-- The call on the files does what the call on the arrays does. -/
def Agrees (call : SwapCall) : Prop :=
  match call with
  | createSwap _ _ => True
  | swapWritePage pid page _ =>
    (∀ heap pid' page', page' < (arrays pid').pages → (pid', page') ≠ (pid, page) →
      ((call.onFiles cfg files).swapGetPage cfg pid' heap page').1 =
        (files.swapGetPage cfg pid' heap page').1) ∧
    ((call.onFiles cfg files).contents pid).length = (files.contents pid).length
  | swapGetPage pid page =>
    ∀ heap, (files.swapGetPage cfg pid heap page).1 = (arrays pid).page page

def IsWrite : SwapCall → Prop
  | swapWritePage _ _ _ => True
  | _ => False

end SwapCall

/-- Every call of the sequence keeps to the pages of its process. -/
def AllInside (cfg : MemoryConfig) : (Word → PageArray) → List SwapCall → Prop
  | _, [] => True
  | arrays, call :: calls =>
    call.Inside cfg arrays ∧ AllInside cfg (call.onArrays cfg arrays) calls

/-- Every call of the sequence on the files agrees with the call on the arrays. -/
def AllAgree (cfg : MemoryConfig) : (Word → PageArray) → SwapFiles → List SwapCall → Prop
  | _, _, [] => True
  | arrays, files, call :: calls =>
    call.Agrees cfg arrays files ∧
      AllAgree cfg (call.onArrays cfg arrays) (call.onFiles cfg files) calls

namespace SwapFiles

variable {cfg : MemoryConfig} {arrays : Word → PageArray} {files : SwapFiles}

/-! ## Writes go to the end -/

/-- The pages of every array lie in the file of its pid. -/
def Holds (cfg : MemoryConfig) (arrays : Word → PageArray) (files : SwapFiles) : Prop :=
  ∀ pid, ∃ n, n < 2 ^ 32 ∧ (arrays pid).pages * cfg.pageSize ≤ n ∧ n ≤ (files.contents pid).length

theorem Holds.fseek_add_le (h : Holds cfg arrays files) {pid : Word} {page : ℕ}
    (hpage : page < (arrays pid).pages) :
    fseek cfg page + cfg.pageSize ≤ (files.contents pid).length := by
  obtain ⟨n, hn, hpages, hlen⟩ := h pid
  have hend : (page + 1) * cfg.pageSize ≤ n :=
    Nat.le_trans (Nat.mul_le_mul_right _ hpage) hpages
  exact Nat.le_trans (SwapFiles.fseek_add_le hn hend) hlen

/-- A write is seen by no read of a page that lies in its file, not even of the page written. -/
theorem Holds.swapGetPage_swapWritePage (h : Holds cfg arrays files) {pid pid' : Word}
    {page' : ℕ} {data heap : Bytes} (hpage : page' < (arrays pid').pages) :
    ((files.swapWritePage cfg pid data).swapGetPage cfg pid' heap page').1 =
      (files.swapGetPage cfg pid' heap page').1 := by
  have hle := h.fseek_add_le hpage
  have hle' : fseek cfg page' + cfg.pageSize ≤
      ((files.swapWritePage cfg pid data).contents pid').length := by
    rw [contents_swapWritePage]
    split
    · next heq =>
      subst heq
      rw [List.length_append]
      omega
    · exact hle
  rw [swapGetPage_eq hle', swapGetPage_eq hle, contents_swapWritePage]
  split
  · next heq =>
    subst heq
    rw [List.drop_append_of_le_length (by omega), List.take_append_of_le_length (by simp; omega)]
  · rfl

/-- A page written makes the file longer. -/
theorem length_lt_swapWritePage {pid : Word} {data : Bytes} (hdata : data.length = cfg.pageSize) :
    (files.contents pid).length < ((files.swapWritePage cfg pid data).contents pid).length := by
  rw [contents_swapWritePage, if_pos rfl, List.length_append, List.length_take, hdata]
  have := cfg.pageSize_pos
  omega

/-! ## Without writes -/

/-- The files and the arrays hold zeros and nothing else. -/
structure Zeroed (cfg : MemoryConfig) (arrays : Word → PageArray) (files : SwapFiles) : Prop where
  holds : Holds cfg arrays files
  files_zero : ∀ pid, ∀ byte ∈ files.contents pid, byte = 0
  arrays_zero : ∀ pid, ∀ page < (arrays pid).pages, (arrays pid).page page = cfg.zeroPage

theorem zeroed_start : Zeroed cfg PageArray.start fun _ => none where
  holds := by
    intro pid
    exact ⟨0, by decide, by simp [PageArray.start], Nat.zero_le _⟩
  files_zero := by simp [contents]
  arrays_zero := by simp [PageArray.start]

/-- A page read from files of zeros is a page of zeros. -/
theorem Zeroed.swapGetPage_eq (h : Zeroed cfg arrays files) {pid : Word} {page : ℕ} {heap : Bytes}
    (hpage : page < (arrays pid).pages) :
    (files.swapGetPage cfg pid heap page).1 = cfg.zeroPage := by
  have hle := h.holds.fseek_add_le hpage
  rw [SwapFiles.swapGetPage_eq hle, MemoryConfig.zeroPage, List.eq_replicate_iff]
  constructor
  · rw [List.length_take, List.length_drop]
    omega
  · intro byte hbyte
    exact h.files_zero pid byte (List.mem_of_mem_drop (List.mem_of_mem_take hbyte))

theorem Zeroed.createSwap (h : Zeroed cfg arrays files) (pid processSize : Word) :
    Zeroed cfg ((SwapCall.createSwap pid processSize).onArrays cfg arrays)
      (files.createSwap pid processSize) where
  holds := by
    intro pid'
    by_cases hpid : pid' = pid
    · subst hpid
      refine ⟨processSize.toNat, processSize.isLt, ?_, ?_⟩
      · simpa [SwapCall.onArrays] using Nat.div_mul_le_self processSize.toNat cfg.pageSize
      · rw [contents_createSwap, if_pos rfl, List.length_append, List.length_take,
          List.length_replicate]
        omega
    · simpa [SwapCall.onArrays, contents_createSwap, hpid] using h.holds pid'
  files_zero := by
    intro pid' byte hbyte
    rw [contents_createSwap] at hbyte
    split at hbyte
    · rcases List.mem_append.mp hbyte with hold | hnew
      · exact h.files_zero pid byte (List.mem_of_mem_take hold)
      · exact List.eq_of_mem_replicate hnew
    · exact h.files_zero pid' byte hbyte
  arrays_zero := by
    intro pid' page hpage
    by_cases hpid : pid' = pid
    · subst hpid
      simp [SwapCall.onArrays]
    · simp only [SwapCall.onArrays, Function.update_of_ne hpid] at hpage ⊢
      exact h.arrays_zero pid' page hpage

theorem Zeroed.swapGetPage (h : Zeroed cfg arrays files) (pid : Word) (page : ℕ) :
    Zeroed cfg arrays (files.swapGetPage cfg pid [] page).2 where
  holds := by simpa [Holds] using h.holds
  files_zero := by simpa using h.files_zero
  arrays_zero := h.arrays_zero

/-- While nothing is written, every page reads as zeros. -/
theorem Zeroed.allAgree {calls : List SwapCall} (h : Zeroed cfg arrays files)
    (hin : AllInside cfg arrays calls) (hcalls : ∀ call ∈ calls, ¬ call.IsWrite) :
    AllAgree cfg arrays files calls := by
  induction calls generalizing arrays files with
  | nil => trivial
  | cons call calls ih =>
    obtain ⟨hcall, hin⟩ := hin
    obtain ⟨hwrite, hrest⟩ := List.forall_mem_cons.mp hcalls
    cases call with
    | createSwap pid processSize => exact ⟨trivial, ih (h.createSwap pid processSize) hin hrest⟩
    | swapWritePage pid page data => exact absurd trivial hwrite
    | swapGetPage pid page =>
      refine ⟨?_, ih (h.swapGetPage pid page) hin hrest⟩
      intro heap
      rw [h.swapGetPage_eq hcall, h.arrays_zero pid page hcall]

/-- A sequence of calls that all agree has no write in it. -/
theorem not_isWrite_of_allAgree {calls : List SwapCall} (hin : AllInside cfg arrays calls)
    (h : AllAgree cfg arrays files calls) : ∀ call ∈ calls, ¬ call.IsWrite := by
  induction calls generalizing arrays files with
  | nil => simp
  | cons call calls ih =>
    refine List.forall_mem_cons.mpr ⟨?_, ih hin.2 h.2⟩
    cases call with
    | createSwap pid processSize => exact id
    | swapGetPage pid page => exact id
    | swapWritePage pid page data =>
      intro _
      have hlen := h.1.2
      have hlt : (files.contents pid).length <
          ((files.swapWritePage cfg pid data).contents pid).length :=
        length_lt_swapWritePage hin.1.2
      exact absurd hlen (Nat.ne_of_gt hlt)

/-- The swap files do not keep the pages that the memory module hands them. -/
theorem not_faithful_fileStore (hsize : cfg.pageSize < 2 ^ 32) (heap : Bytes) :
    ¬ (fileStore cfg heap).Faithful cfg := by
  intro h
  have hstart : Zeroed cfg PageArray.start fun _ => none := zeroed_start
  have hzeroed := hstart.createSwap 0 (BitVec.ofNat 32 cfg.pageSize)
  have hpage : 0 < ((SwapCall.createSwap 0 (BitVec.ofNat 32 cfg.pageSize)).onArrays cfg
      PageArray.start 0).pages := by
    have hword : (BitVec.ofNat 32 cfg.pageSize).toNat = cfg.pageSize := Nat.mod_eq_of_lt hsize
    simp [SwapCall.onArrays, hword, cfg.pageSize_pos, -BitVec.toNat_ofNat]
  have hget := h.get_write 0 0 (List.replicate cfg.pageSize 1)
    (SwapFiles.createSwap (fun _ => none) 0 (BitVec.ofNat 32 cfg.pageSize))
  simp only [fileStore, hzeroed.holds.swapGetPage_swapWritePage hpage,
    hzeroed.swapGetPage_eq hpage, MemoryConfig.zeroPage] at hget
  have hpos := cfg.pageSize_pos
  simp [List.replicate_inj, Nat.ne_of_gt hpos] at hget

end SwapFiles

/-- The swap files are arrays of pages exactly as long as nothing is written to them. -/
theorem allAgree_iff {cfg : MemoryConfig} {calls : List SwapCall}
    (hin : AllInside cfg PageArray.start calls) :
    AllAgree cfg PageArray.start (fun _ => none) calls ↔ ∀ call ∈ calls, ¬ call.IsWrite :=
  ⟨SwapFiles.not_isWrite_of_allAgree hin, SwapFiles.zeroed_start.allAgree hin⟩

/-- Two processes, and reads of a page of each. -/
theorem allAgree_iff_two :
    AllAgree (.small 1) PageArray.start (fun _ => none)
      [.createSwap 1 16, .createSwap 2 8, .swapGetPage 1 1, .swapGetPage 2 0] := by
  refine (allAgree_iff ?_).mpr ?_
  · exact ⟨trivial, trivial, by decide, by decide, trivial⟩
  · simp [SwapCall.IsWrite]

/-- A page is written, and then read as zeros. -/
theorem not_allAgree :
    ¬ AllAgree (.small 1) PageArray.start (fun _ => none)
      [.createSwap 1 16, .swapWritePage 1 0 (List.replicate 8 7), .swapGetPage 1 0] := by
  intro h
  have hget := h.2.2.1 []
  revert hget
  decide

end SistemasOperativos
