import SistemasOperativos.Memory.State
import Mathlib.Logic.Function.Basic

/-!
# The swap files

`memory/src/swap.c`.  A stream opened with mode `"ab+"` makes its file when there is none, writes
at the end of the file wherever it was positioned, and reads from the position that `fseek` set.
-/

namespace SistemasOperativos

/-- The files under `PATH_SWAP`, by the pid in their name. -/
abbrev SwapFiles := Word → Option Bytes

namespace SwapFiles

variable (cfg : MemoryConfig) (files : SwapFiles) (pid : Word)

/-- What a stream opened on the file of `pid` finds in it. -/
def contents : Bytes :=
  (files pid).getD []

/-- `fopen(swap_file_path, "ab+")`. -/
def fopen : SwapFiles :=
  Function.update files pid (some (files.contents pid))

/-- `ftruncate`: the file is cut, or extended with zeros. -/
def ftruncate (size : ℕ) : SwapFiles :=
  Function.update files pid
    (some ((files.contents pid).take size ++ List.replicate (size - (files.contents pid).length) 0))

/-- `fwrite` on the stream of the file. -/
def fwrite (data : Bytes) : SwapFiles :=
  Function.update files pid (some (files.contents pid ++ data))

/-- `fread`.  What is past the end of the file leaves `buffer` as it was. -/
def fread (count position : ℕ) (buffer : Bytes) : Bytes :=
  let bytes := ((files.contents pid).drop position).take count
  bytes ++ buffer.drop bytes.length

/-- `fseek(swap_file, page * config->pageSize, SEEK_SET)`, of which the product is an `int`: the
position of a stream just opened stays where it is when the product is negative. -/
def fseek (page : ℕ) : ℕ :=
  (BitVec.ofNat 32 (page * cfg.pageSize)).toInt.toNat

/-- `create_swap`. -/
def createSwap (processSize : Word) : SwapFiles :=
  (files.fopen pid).ftruncate pid processSize.toNat

/-- `swap_write_page`.  Where `fseek` leaves the stream does not matter to `fwrite`. -/
def swapWritePage (data : Bytes) : SwapFiles :=
  (files.fopen pid).fwrite pid (data.take cfg.pageSize)

/-- `swap_get_page`: the page read, and the files.  `heap` is what the memory that `malloc` returns
held before. -/
def swapGetPage (heap : Bytes) (page : ℕ) : Bytes × SwapFiles :=
  ((files.fopen pid).fread pid cfg.pageSize (fseek cfg page) (heap.take cfg.pageSize),
    files.fopen pid)

/-- `delete_swap`. -/
def deleteSwap : SwapFiles :=
  Function.update files pid none

end SwapFiles

/-- The swap files as the memory module uses them, when every `malloc` returns the same `heap`. -/
def fileStore (cfg : MemoryConfig) (heap : Bytes) : SwapStore SwapFiles where
  createSwap pid size files := files.createSwap pid size
  swapWritePage pid _ data files := files.swapWritePage cfg pid data
  swapGetPage pid page files := (files.swapGetPage cfg pid heap page).1
  deleteSwap pid files := files.deleteSwap pid

namespace SwapFiles

variable {cfg : MemoryConfig} {files : SwapFiles} {pid pid' : Word}

/-! ## What each call does to the contents of the files -/

@[simp] theorem contents_fopen : (files.fopen pid).contents pid' = files.contents pid' := by
  by_cases h : pid' = pid
  · subst h
    simp [fopen, contents]
  · simp [fopen, contents, h]

theorem contents_ftruncate (size : ℕ) :
    (files.ftruncate pid size).contents pid' =
      if pid' = pid then (files.contents pid).take size ++
        List.replicate (size - (files.contents pid).length) 0
      else files.contents pid' := by
  by_cases h : pid' = pid <;> simp [ftruncate, contents, h]

theorem contents_fwrite (data : Bytes) :
    (files.fwrite pid data).contents pid' =
      if pid' = pid then files.contents pid ++ data else files.contents pid' := by
  by_cases h : pid' = pid <;> simp [fwrite, contents, h]

theorem contents_createSwap (size : Word) :
    (files.createSwap pid size).contents pid' =
      if pid' = pid then (files.contents pid).take size.toNat ++
        List.replicate (size.toNat - (files.contents pid).length) 0
      else files.contents pid' := by
  simp [createSwap, contents_ftruncate]

theorem contents_swapWritePage (data : Bytes) :
    (files.swapWritePage cfg pid data).contents pid' =
      if pid' = pid then files.contents pid ++ data.take cfg.pageSize
      else files.contents pid' := by
  simp [swapWritePage, contents_fwrite]

@[simp] theorem contents_swapGetPage (heap : Bytes) (page : ℕ) :
    (files.swapGetPage cfg pid heap page).2.contents pid' = files.contents pid' :=
  contents_fopen

/-- A page that ends before `n` starts at or before it, wherever `fseek` goes. -/
theorem fseek_add_le {n page : ℕ} (hn : n < 2 ^ 32) (hpage : (page + 1) * cfg.pageSize ≤ n) :
    fseek cfg page + cfg.pageSize ≤ n := by
  have hlt : page * cfg.pageSize + cfg.pageSize ≤ n := by rwa [← Nat.succ_mul]
  unfold fseek
  rw [BitVec.toInt_eq_toNat_cond, BitVec.toNat_ofNat, Nat.mod_eq_of_lt (by omega)]
  split <;> omega

/-- A page read in full is a slice of the file. -/
theorem swapGetPage_eq {heap : Bytes} {page : ℕ}
    (h : fseek cfg page + cfg.pageSize ≤ (files.contents pid).length) :
    (files.swapGetPage cfg pid heap page).1 =
      ((files.contents pid).drop (fseek cfg page)).take cfg.pageSize := by
  have hlen : (((files.contents pid).drop (fseek cfg page)).take cfg.pageSize).length =
      cfg.pageSize := by
    simp
    omega
  simp [swapGetPage, fread, hlen]

end SwapFiles

end SistemasOperativos
