import SistemasOperativos.Memory.Frames

/-!
# Page tables

The page tables of a process, its page faults and their replacement algorithms
(`memory/src/page_table.c`).  A null pointer that is dereferenced is `none`.
-/

namespace SistemasOperativos

/-- `ceil_div`, which divides `int`s. -/
def ceilDiv (a b : ℤ) : ℤ :=
  a.tdiv b + if a.tmod b ≠ 0 then 1 else 0

/-- A level-2 table as `page_table_init` makes it. -/
def newLevel2Table (cfg : MemoryConfig) : List PageEntry :=
  (List.range cfg.entriesPerTable).map fun j => ⟨-1, false, false, false, j⟩

/-- `pages_required`.  The quotient is unsigned, and stored in an `int`. -/
def pagesRequired (cfg : MemoryConfig) (processSize : Word) : ℤ :=
  (BitVec.ofNat 32 (processSize.toNat / cfg.pageSize)).toInt

/-- The number of level-2 tables of a process.  The loop makes none where `level2_pages_required`
is negative. -/
def level2PagesRequired (cfg : MemoryConfig) (processSize : Word) : ℕ :=
  (ceilDiv (pagesRequired cfg processSize) cfg.entriesPerTable).toNat

/-- While the number of pages is an `int`, the tables are as many as the pages need. -/
theorem level2PagesRequired_of_lt {cfg : MemoryConfig} {processSize : Word}
    (h : processSize.toNat / cfg.pageSize < 2 ^ 31) :
    level2PagesRequired cfg processSize =
      processSize.toNat / cfg.pageSize / cfg.entriesPerTable +
        if processSize.toNat / cfg.pageSize % cfg.entriesPerTable ≠ 0 then 1 else 0 := by
  have hpages : pagesRequired cfg processSize =
      ((processSize.toNat / cfg.pageSize : ℕ) : ℤ) := by
    rw [pagesRequired, BitVec.toInt_eq_toNat_cond, BitVec.toNat_ofNat,
      Nat.mod_eq_of_lt (by omega), if_pos (by omega)]
  rw [level2PagesRequired, ceilDiv, hpages, ← Int.ofNat_tdiv, ← Int.ofNat_tmod]
  simp only [ne_eq, Int.natCast_eq_zero]
  generalize processSize.toNat / cfg.pageSize / cfg.entriesPerTable = quotient
  split <;> omega

/-- Past that the number is negative, and there is one table at most. -/
theorem level2PagesRequired_of_ge {cfg : MemoryConfig} {processSize : Word}
    (h : 2 ^ 31 ≤ processSize.toNat / cfg.pageSize) :
    level2PagesRequired cfg processSize =
      if 2 ^ 32 - processSize.toNat / cfg.pageSize < cfg.entriesPerTable then 1 else 0 := by
  have hword := processSize.isLt
  have hlt : processSize.toNat / cfg.pageSize < 2 ^ 32 :=
    Nat.lt_of_le_of_lt (Nat.div_le_self _ _) hword
  obtain ⟨n, hn⟩ : ∃ n, n = 2 ^ 32 - processSize.toNat / cfg.pageSize := ⟨_, rfl⟩
  have hpages : pagesRequired cfg processSize = -(n : ℤ) := by
    rw [pagesRequired, BitVec.toInt_eq_toNat_cond, BitVec.toNat_ofNat, Nat.mod_eq_of_lt hlt,
      if_neg (by omega)]
    omega
  have hpos := cfg.entriesPerTable_pos
  rw [level2PagesRequired, ceilDiv, hpages, Int.neg_tdiv, Int.neg_tmod, ← Int.ofNat_tdiv,
    ← Int.ofNat_tmod, ← hn]
  by_cases hless : n < cfg.entriesPerTable
  · rw [Nat.div_eq_of_lt hless, Nat.mod_eq_of_lt hless, if_pos hless]
    split <;> omega
  · have hquotient : 1 ≤ n / cfg.entriesPerTable := (Nat.one_le_div_iff hpos).2 (by omega)
    rw [if_neg hless]
    split <;> omega

namespace Memory

variable {Swap : Type}

/-! ## Creation -/

/-- The loop of `page_table_init`: the entries of the level-1 table, and the tables. -/
def addLevel2Tables (cfg : MemoryConfig) (pid : Word) :
    ℕ → List ℕ → Memory Swap → List ℕ × Memory Swap
  | 0, entries, m => (entries, m)
  | n + 1, entries, m =>
      addLevel2Tables cfg pid n (entries ++ [m.level2Tables.length])
        { m with
          level2Tables := m.level2Tables ++ [newLevel2Table cfg]
          owners := m.owners ++ [pid] }

/-- `page_table_init`.  Its result is the index of the new level-1 table. -/
def pageTableInit (cfg : MemoryConfig) (pid processSize : Word) (m : Memory Swap) : Memory Swap :=
  let (entries, m') := addLevel2Tables cfg pid (level2PagesRequired cfg processSize) [] m
  { m' with level1Tables := m'.level1Tables ++ [entries] }

/-- `get_page_table2_index`. -/
def getPageTable2Index (host : Host) (m : Memory Swap) (pt1Index entryIndex : ℕ) : Option ℕ :=
  m.level1Tables[pt1Index]? >>= fun entries => entries[entryIndex]? >>= host.deref

/-! ## Swap -/

/-- `save_swap`. -/
def saveSwap (cfg : MemoryConfig) (host : Host) (store : SwapStore Swap) (frame : ℤ) (page : ℕ)
    (pid : Word) (m : Memory Swap) : Option (Memory Swap) :=
  match host.pageAt (m.frameBytes cfg frame) with
  | none => none
  | some data => some { m with swap := store.swapWritePage pid page data m.swap }

/-- `get_swap`. -/
def getSwap (cfg : MemoryConfig) (host : Host) (store : SwapStore Swap) (frame : Word) (page : ℕ)
    (pid : Word) (m : Memory Swap) : Option (Memory Swap) :=
  m.writeBytes (frame * BitVec.ofNat 32 cfg.pageSize).toInt
    (host.valueBytes (store.swapGetPage pid page m.swap))

/-! ## Replacement -/

/-- The part of `_replace` that takes the old page out. -/
def evict (cfg : MemoryConfig) (host : Host) (store : SwapStore Swap) (frame : ℤ) (old : PageId)
    (page : PageEntry) (pid : Word) (m : Memory Swap) : Option (Memory Swap) :=
  let events := if page.present then [PageEvent.left old (m.frameBytes cfg frame)] else []
  let saved :=
    if page.present ∧ page.modified then
      (m.saveSwap cfg host store frame page.page pid).map fun m =>
        m.modifyPage old fun page => { page with modified := false }
    else some m
  saved.map fun m =>
    { m.modifyPage old fun page => { page with present := false } with
      history := m.history ++ events }

/-- `_replace`, on entry `i` of frame list `k`, which holds the page `old`. -/
def replace (cfg : MemoryConfig) (host : Host) (store : SwapStore Swap) (k i : ℕ) (frame : ℤ)
    (old : PageId) (oldPage : PageEntry) (new : PageId) (newPage : PageEntry) (pid : Word)
    (m : Memory Swap) : Option (Memory Swap) :=
  match m.evict cfg host store frame old oldPage pid with
  | none => none
  | some m =>
      match m.getSwap cfg host store (host.frameEntryAddress k i) newPage.page pid with
      | none => none
      | some m =>
          let m := m.modifyPage new fun page => { page with present := true, frame := frame }
          let m := m.modifyFrame k i fun entry => { entry with pageData := some new }
          some { m with history := m.history ++ [.loaded new (m.frameBytes cfg frame)] }

/-- The clock hand of frame list `k` moves on. -/
def advanceClockHand (cfg : MemoryConfig) (k : ℕ) (m : Memory Swap) : Memory Swap :=
  { m with
    processesFrames := m.processesFrames.modify k fun process =>
      { process with clockHand := incrementClockHand cfg process.clockHand } }

/-- What the clock does with the page under its hand. -/
inductive ClockVerdict
  | replace | clearUsed | pass
deriving DecidableEq, Repr

/-- The tests of `two_clock_turns` on turn `j`. -/
def clockVerdict (checkModified : Bool) (j : ℕ) (page : PageEntry) : ClockVerdict :=
  if checkModified then
    if ¬ page.used ∧ ¬ page.modified then .replace
    else if j = 1 then
      if ¬ page.used then .replace else .clearUsed
    else .pass
  else if ¬ page.used then .replace
  else .clearUsed

/-- One iteration of `two_clock_turns`; the frame where it returns. -/
def clockVisit (cfg : MemoryConfig) (host : Host) (store : SwapStore Swap) (k : ℕ)
    (checkModified : Bool) (new : PageId) (newPage : PageEntry) (pid : Word) (j : ℕ)
    (m : Memory Swap) : Option (Memory Swap × Option ℤ) :=
  match m.processesFrames[k]? with
  | none => none
  | some process =>
      match process.frames[process.clockHand]? with
      | none => none
      | some currFrame =>
          match currFrame.pageData with
          | none => none
          | some old =>
              match m.page? old with
              | none => none
              | some currPage =>
                  match clockVerdict checkModified j currPage with
                  | .replace =>
                      match m.replace cfg host store k process.clockHand currFrame.frame old
                        currPage new newPage pid with
                      | none => none
                      | some m => some (m.advanceClockHand cfg k, some currFrame.frame)
                  | .clearUsed =>
                      some ((m.modifyPage old fun page =>
                        { page with used := false }).advanceClockHand cfg k, none)
                  | .pass => some (m.advanceClockHand cfg k, none)

/-- The iterations of `two_clock_turns` that are left, each with its turn. -/
def clockTurns (cfg : MemoryConfig) (host : Host) (store : SwapStore Swap) (k : ℕ)
    (checkModified : Bool) (new : PageId) (newPage : PageEntry) (pid : Word) :
    List ℕ → Memory Swap → Option (Memory Swap × ℤ)
  | [], m => some (m, -1)
  | j :: rest, m =>
      match m.clockVisit cfg host store k checkModified new newPage pid j with
      | none => none
      | some (m, some frame) => some (m, frame)
      | some (m, none) => clockTurns cfg host store k checkModified new newPage pid rest m

/-- `two_clock_turns`. -/
def twoClockTurns (cfg : MemoryConfig) (host : Host) (store : SwapStore Swap) (k : ℕ)
    (checkModified : Bool) (new : PageId) (newPage : PageEntry) (pid : Word) (m : Memory Swap) :
    Option (Memory Swap × ℤ) :=
  m.clockTurns cfg host store k checkModified new newPage pid
    (List.replicate cfg.framesPerProcess 0 ++ List.replicate cfg.framesPerProcess 1)

/-- `replace_algorithm`. -/
def replaceAlgorithm (cfg : MemoryConfig) (host : Host) (store : SwapStore Swap) (k : ℕ)
    (new : PageId) (newPage : PageEntry) (pid : Word) (m : Memory Swap) :
    Option (Memory Swap × ℤ) :=
  match cfg.replaceAlgorithm with
  | .clock => m.twoClockTurns cfg host store k false new newPage pid
  | .clockM =>
      match m.twoClockTurns cfg host store k true new newPage pid with
      | none => none
      | some (m, frame) =>
          if frame ≠ -1 then some (m, frame)
          else m.twoClockTurns cfg host store k true new newPage pid

/-! ## Page faults -/

/-- The page takes the frame in entry `i` of frame list `k`. -/
def assignPage (cfg : MemoryConfig) (k i : ℕ) (frame : ℤ) (id : PageId) (m : Memory Swap) :
    Memory Swap :=
  let m := m.modifyPage id fun page => { page with present := true, frame := frame }
  let m := m.modifyFrame k i fun entry => { entry with pageData := some id }
  { m with history := m.history ++ [.loaded id (m.frameBytes cfg frame)] }

/-- `get_frame_number`.  The local `process_frames` is read before it is assigned: which frame
list `list_get` then gives, if any, is the argument `found`. -/
def getFrameNumber (cfg : MemoryConfig) (host : Host) (store : SwapStore Swap) (id : PageId)
    (pid : Word) (found : Option ℕ) (m : Memory Swap) : Option (Memory Swap × ℤ) :=
  match m.page? id with
  | none => none
  | some entry =>
      if entry.present then some (m, entry.frame)
      else
        match found with
        | none => none
        | some k =>
            match m.processesFrames[k]? with
            | none => none
            | some process =>
                if hasFreeFrame cfg process then
                  match findFirstFreeFrame process with
                  | none => some (m, -1)
                  | some (free, i) => some (m.assignPage cfg k i free.frame id, free.frame)
                else m.replaceAlgorithm cfg host store k id entry pid

end Memory

end SistemasOperativos
