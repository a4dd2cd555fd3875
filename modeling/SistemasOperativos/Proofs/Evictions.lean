import SistemasOperativos.Library.ClockAccess
import SistemasOperativos.Proofs.ClockTurns
import SistemasOperativos.Proofs.Isolation

/-!
# Which pages the accesses of a process evict

The use and modified bits are there for CLOCK and CLOCK-M to read, and the turns of the clock do
read them, but no handler ever sets one: `get_frame_number` leaves it to `memory_read` and
`memory_write`, and these leave it undone.  So the page under the hand always goes, whatever was
accessed.  That is what the textbook algorithms do exactly as long as no page is of a lower class
than the one under the hand.
-/

namespace SistemasOperativos

/-! ## Accesses -/

/-- An access of a process: the level-2 entry it names, and then a read, or the write of a value,
at an address of the memory. -/
structure MemoryAccess (cfg : MemoryConfig) where
  pt2Index : Word
  entryIndex : Word
  address : Word
  value : Option Word
  named : pt2Index ≠ -1
  inside : address.toNat + 4 ≤ cfg.memorySize

def MemoryAccess.page {cfg : MemoryConfig} (access : MemoryAccess cfg) : PageId :=
  ⟨access.pt2Index.toNat, access.entryIndex.toNat⟩

/-- The access as an item of an access string. -/
def MemoryAccess.request {cfg : MemoryConfig} (access : MemoryAccess cfg) : PageId × Bool :=
  (access.page, access.value.isSome)

/-- The page that leaves its frame by an event. -/
def PageEvent.departure : PageEvent → Option PageId
  | .loaded .. => none
  | .left page _ => some page

/-- The module replaces by CLOCK-M. -/
def MemoryConfig.enhanced (cfg : MemoryConfig) : Bool :=
  cfg.replaceAlgorithm = .clockM

namespace Memory

variable {Swap : Type} {cfg : MemoryConfig} {host : Host} {store : SwapStore Swap}
  {m m' : Memory Swap} {k : ℕ} {pid : Word}

/-- `access_lvl2_table`, with the frame list of the process, and then `memory_read` or
`memory_write`. -/
def access (cfg : MemoryConfig) (host : Host) (store : SwapStore Swap) (pid : Word) (k : ℕ)
    (a : MemoryAccess cfg) (m : Memory Swap) : Option (Memory Swap) :=
  match m.accessLvl2Table cfg host store pid a.pt2Index a.entryIndex (some k) with
  | none => none
  | some (m, _) =>
      match a.value with
      | none => (m.memoryRead a.address).map Prod.fst
      | some value => (m.memoryWrite a.address value).map Prod.fst

/-- The accesses of a string, one after the other. -/
def accesses (cfg : MemoryConfig) (host : Host) (store : SwapStore Swap) (pid : Word) (k : ℕ)
    (string : List (MemoryAccess cfg)) (m : Memory Swap) : Option (Memory Swap) :=
  string.foldlM (fun m a => m.access cfg host store pid k a) m

/-- The pages that have left their frames. -/
def departures (m : Memory Swap) : List PageId :=
  m.history.filterMap PageEvent.departure

/-- The part of the state that a read or a write leaves alone. -/
structure SameTables (m m' : Memory Swap) : Prop where
  level2Tables : m'.level2Tables = m.level2Tables
  processesFrames : m'.processesFrames = m.processesFrames
  history : m'.history = m.history
  memory : m'.memory.length = m.memory.length

theorem writeBytes_sameTables {start : ℤ} {data : Bytes}
    (h : m.writeBytes start data = some m') : m.SameTables m' := by
  obtain ⟨memory, rfl, hlength⟩ := writeBytes_eq_some h
  exact ⟨rfl, rfl, rfl, hlength⟩

/-- A read or a write changes bytes only. -/
theorem sameTables_of_operation {a : MemoryAccess cfg}
    (h : (match a.value with
      | none => (m.memoryRead a.address).map Prod.fst
      | some value => (m.memoryWrite a.address value).map Prod.fst) = some m') :
    m.SameTables m' := by
  cases hvalue : a.value with
  | none =>
      simp only [hvalue, memoryRead, Option.map_eq_some_iff] at h
      obtain ⟨⟨m₁, answer⟩, hread, rfl⟩ := h
      repeat' split at hread
      all_goals cases hread
      all_goals exact ⟨rfl, rfl, rfl, rfl⟩
  | some value =>
      simp only [hvalue, memoryWrite, Option.map_eq_some_iff] at h
      obtain ⟨⟨m₁, answer⟩, hwritten, rfl⟩ := h
      split at hwritten
      · cases hwritten
        exact ⟨rfl, rfl, rfl, rfl⟩
      · obtain ⟨m₂, hwrite, heq⟩ := Option.map_eq_some_iff.1 hwritten
        cases heq
        exact writeBytes_sameTables hwrite

/-- A read or a write in the memory goes through. -/
theorem operation_sameTables (a : MemoryAccess cfg) (hmemory : m.memory.length = cfg.memorySize) :
    ∃ m', (match a.value with
      | none => (m.memoryRead a.address).map Prod.fst
      | some value => (m.memoryWrite a.address value).map Prod.fst) = some m' ∧
        m.SameTables m' := by
  have hinside := a.inside
  rw [← hmemory] at hinside
  suffices hsome : ∃ m', (match a.value with
      | none => (m.memoryRead a.address).map Prod.fst
      | some value => (m.memoryWrite a.address value).map Prod.fst) = some m' by
    obtain ⟨m', hoperation⟩ := hsome
    exact ⟨m', hoperation, sameTables_of_operation hoperation⟩
  cases a.value with
  | none =>
      simp only [memoryRead]
      by_cases haddress : a.address = 0
      · rw [if_pos haddress]
        exact ⟨_, rfl⟩
      · rw [if_neg haddress, if_pos hinside]
        exact ⟨_, rfl⟩
  | some value =>
      simp only [memoryWrite]
      by_cases haddress : a.address = 0
      · rw [if_pos haddress]
        exact ⟨_, rfl⟩
      · have hlength : value.bytes.length = 4 := by simp [Word.bytes]
        have hfits : 0 ≤ (a.address.toNat : ℤ) ∧
            (a.address.toNat : ℤ).toNat + value.bytes.length ≤ m.memory.length := by
          rw [hlength]
          exact ⟨Int.natCast_nonneg _, by simpa using hinside⟩
        rw [if_neg haddress, writeBytes, if_pos hfits]
        exact ⟨_, rfl⟩

/-! ## The bits -/

/-- No page is used or modified. -/
def BitsClear (m : Memory Swap) : Prop :=
  ∀ id page, m.page? id = some page → page.used = false ∧ page.modified = false

theorem BitsClear.of_tables (hm : m.BitsClear) (h : m'.level2Tables = m.level2Tables) :
    m'.BitsClear := by
  intro id page hpage
  rw [page?, h] at hpage
  exact hm id page hpage

theorem BitsClear.modifyPage (hm : m.BitsClear) (id : PageId) {f : PageEntry → PageEntry}
    (hf : ∀ page, page.used = false → page.modified = false →
      (f page).used = false ∧ (f page).modified = false) : (m.modifyPage id f).BitsClear := by
  intro id' page hpage
  rw [page?_modifyPage] at hpage
  split at hpage
  · obtain ⟨page', hpage', rfl⟩ := Option.map_eq_some_iff.1 hpage
    exact hf page' (hm id' page' hpage').1 (hm id' page' hpage').2
  · exact hm id' page hpage

theorem suspendEntry_bitsClear {id : PageId}
    (h : m.suspendEntry cfg host store pid k id = some m') (hm : m.BitsClear) :
    m'.BitsClear := by
  unfold suspendEntry at h
  split at h
  · cases h
  rename_i page hpage
  simp only [(hm id page hpage).2, Bool.false_eq_true, and_false, if_false] at h
  obtain ⟨bitmap, processes, rfl, -⟩ := unassignProcessFrames_eq h
  have hpages := hm.modifyPage id (f := fun page => { page with present := false, frame := -1 })
    fun _ hused hmodified => ⟨hused, hmodified⟩
  exact hpages.of_tables rfl

theorem handle_bitsClear {action : MemoryAction} {answer : Option MemoryAnswer}
    (h : m.handle cfg host store action = some (m', answer)) (hfull : m.FullEmpty cfg)
    (hm : m.BitsClear) : m'.BitsClear := by
  refine handle_elim h ?create ?suspend ?exit ?access (fun _ _ => hm.of_tables rfl) hm
  case create =>
    intro pid processSize _
    unfold processNew
    split
    · exact hm
    intro id page hpage
    have htables : (m.pageTableInit cfg pid processSize).level2Tables = m.level2Tables ++
        List.replicate (level2PagesRequired cfg processSize) (newLevel2Table cfg) := by
      simp only [pageTableInit, addLevel2Tables_eq]
    rcases page?_append htables hpage with hold | ⟨-, -, entries, hentries, hmem⟩
    · exact hm id page hold
    · obtain rfl := List.eq_of_mem_replicate hentries
      obtain ⟨j, -, rfl⟩ := List.mem_map.1 hmem
      exact ⟨rfl, rfl⟩
  case suspend =>
    intro pid pt1Index processFramesIndex m' _ h
    exact processSuspend_invariant h (fun _ _ _ hm h => suspendEntry_bitsClear h hm) hm
  case exit =>
    intro pid pt1Index processFramesIndex m' _ h
    rcases processExit_eq_some h with rfl | ⟨released, hreleased, rfl⟩
    · exact hm
    · obtain ⟨bitmap, processes, rfl, -⟩ := unassignProcessFrames_eq hreleased
      exact hm.of_tables rfl
  case access =>
    intro pid pt2Index entryIndex processFramesIndex found m' frame _ hframe
    rcases getFrameNumber_cases hframe hfull with ⟨page, -, -, rfl, -⟩ | ⟨page, -, -, rfl, -⟩ |
      ⟨page, k, process, free, i, -, -, -, -, -, -, rfl, -⟩
    · exact hm
    · exact hm
    · have hpages := hm.modifyPage ⟨pt2Index.toNat, entryIndex.toNat⟩
        (f := fun page => { page with present := true, frame := free.frame })
        fun _ hused hmodified => ⟨hused, hmodified⟩
      exact hpages.of_tables rfl

/-- No run of the memory module ever sets a use bit or a modified bit. -/
theorem bitsClear_of_reachable {swap : Swap}
    (hm : (memoryModule cfg host store swap).Reachable m) : m.BitsClear := by
  refine hm.invariant_of (fun _ => fullEmpty_of_reachable) ?_ ?_
  · intro id page hpage
    simp [memoryModule, start, page?] at hpage
  · intro action m m' _ hfull hm h
    obtain ⟨⟨m₁, answer⟩, hhandle, rfl⟩ := Option.map_eq_some_iff.1 h
    exact handle_bitsClear hhandle hfull hm

/-! ## Occupied frames -/

/-- Every entry of frame list `k` has a frame with a page: the list is the clock `c`, and the
pages of the process, which `owned` tells, are resident exactly if they are in it.  The bits are
as the module leaves them. -/
structure Occupied (cfg : MemoryConfig) (owned : PageId → Prop) (k : ℕ) (m : Memory Swap)
    (c : Clock PageId) : Prop where
  list : ∃ process, m.IsClock k process c ∧ ∀ entry ∈ process.frames, entry.assigned = true
  atMost : c.slots.length ≤ cfg.framesPerProcess
  memory : m.memory.length = cfg.memorySize
  pagesOwned : ∀ id ∈ c.pages, owned id
  resident : ∀ id, owned id → ∃ page, m.page? id = some page ∧
    (page.present = true ↔ id ∈ c.pages) ∧ page.used = false ∧ page.modified = false

variable {owned : PageId → Prop} {c : Clock PageId}

theorem SameTables.page? (h : m.SameTables m') (id : PageId) : m'.page? id = m.page? id := by
  rw [Memory.page?, Memory.page?, h.level2Tables]

theorem SameTables.departures (h : m.SameTables m') : m'.departures = m.departures := by
  rw [Memory.departures, Memory.departures, h.history]

theorem IsClock.sameTables {process : ProcessFrame} (hclock : m.IsClock k process c)
    (h : m.SameTables m') : m'.IsClock k process c := by
  have hslot : m'.clockSlot = m.clockSlot := by
    funext entry
    simp only [clockSlot, h.page?]
  exact ⟨h.processesFrames ▸ hclock.list, hclock.hand, hslot ▸ hclock.slots, hclock.pages⟩

theorem Occupied.sameTables (hm : m.Occupied cfg owned k c) (h : m.SameTables m') :
    m'.Occupied cfg owned k c := by
  obtain ⟨process, hclock, hassigned⟩ := hm.list
  refine ⟨⟨process, hclock.sameTables h, hassigned⟩, hm.atMost, h.memory.trans hm.memory,
    hm.pagesOwned, fun id hid => ?_⟩
  rw [h.page?]
  exact hm.resident id hid

/-- An access to a resident page moves no page. -/
theorem access_of_mem (host : Host) (store : SwapStore Swap) (pid : Word)
    (hm : m.Occupied cfg owned k c) {a : MemoryAccess cfg} (ha : a.page ∈ c.pages) :
    ∃ m', m.access cfg host store pid k a = some m' ∧ m'.Occupied cfg owned k c ∧
      m'.departures = m.departures := by
  obtain ⟨page, hpage, hpresent, -, -⟩ := hm.resident a.page (hm.pagesOwned a.page ha)
  have hframe : m.getFrameNumber cfg host store a.page pid (some k) = some (m, page.frame) := by
    rw [getFrameNumber]
    simp [hpage, hpresent.2 ha]
  obtain ⟨m', hoperation, hsame⟩ := operation_sameTables a hm.memory
  refine ⟨m', ?_, hm.sameTables hsame, hsame.departures⟩
  rw [MemoryAccess.page] at hframe
  rw [access, accessLvl2Table, if_neg a.named]
  simp only [hframe, Option.map_some]
  exact hoperation

/-! ## One replacement -/

/-- The page that `get_swap` copies to where the address of an entry leads stays in the memory. -/
def CopyInside (cfg : MemoryConfig) (host : Host) (k i : ℕ) : Prop :=
  0 ≤ (host.frameEntryAddress k i * BitVec.ofNat 32 cfg.pageSize).toInt ∧
    (host.frameEntryAddress k i * BitVec.ofNat 32 cfg.pageSize).toInt.toNat + cfg.pageSize ≤
      cfg.memorySize

/-- What is left of the page tables and the lists after `_replace`. -/
structure Replaced (k i : ℕ) (frame : ℤ) (old new : PageId) (m m' : Memory Swap) : Prop where
  processesFrames : m'.processesFrames =
    (m.modifyFrame k i fun entry => { entry with pageData := some new }).processesFrames
  memory : m'.memory.length = m.memory.length
  pages : ∀ id, m'.page? id =
    if new = id then (m.page? id).map fun page => { page with present := true, frame := frame }
    else if old = id then (m.page? id).map fun page => { page with present := false }
    else m.page? id
  departures : m'.departures = m.departures ++ [old]

/-- `_replace` of an unmodified page goes through exactly if the copy stays in the memory. -/
theorem replace_unmodified (host : Host) (store : SwapStore Swap) (k i : ℕ) (frame : ℤ)
    {old new : PageId} {oldPage : PageEntry} (newPage : PageEntry) (pid : Word)
    (hpresent : oldPage.present = true) (hmodified : oldPage.modified = false) (hne : new ≠ old)
    (hmemory : m.memory.length = cfg.memorySize)
    (hvalue : ∀ bytes, (host.valueBytes bytes).length = cfg.pageSize) :
    (CopyInside cfg host k i ∧ ∃ m', m.replace cfg host store k i frame old oldPage new newPage
        pid = some m' ∧ m.Replaced k i frame old new m') ∨
      (¬ CopyInside cfg host k i ∧
        m.replace cfg host store k i frame old oldPage new newPage pid = none) := by
  obtain ⟨m₁, hm₁⟩ : ∃ m₁, m₁ = { m.modifyPage old fun page => { page with present := false } with
      history := m.history ++ [PageEvent.left old (m.frameBytes cfg frame)] } := ⟨_, rfl⟩
  have hevict : m.evict cfg host store frame old oldPage pid = some m₁ := by
    simp [evict, hpresent, hmodified, hm₁]
  have hlength : m₁.memory.length = cfg.memorySize := by
    rw [hm₁]
    exact hmemory
  by_cases hcopy : CopyInside cfg host k i
  · refine .inl ⟨hcopy, ?_⟩
    obtain ⟨m₂, hcopied⟩ : ∃ m₂, m₁.getSwap cfg host store (host.frameEntryAddress k i)
        newPage.page pid = some m₂ := by
      rw [getSwap, writeBytes, if_pos (by rw [hvalue, hlength]; exact hcopy)]
      exact ⟨_, rfl⟩
    have hsame := writeBytes_sameTables hcopied
    have hpages : ∀ id, m₂.page? id =
        if old = id then (m.page? id).map fun page => { page with present := false }
        else m.page? id := by
      intro id
      rw [hsame.page? id, hm₁]
      exact page?_modifyPage old id _
    have hlists : m₂.processesFrames = m.processesFrames := by
      rw [hsame.processesFrames, hm₁]
      rfl
    rw [replace, hevict]
    simp only [hcopied]
    refine ⟨_, rfl, ?_, ?_, fun id => ?_, ?_⟩
    · simp only [modifyFrame, modifyPage, hlists]
    · exact hsame.memory.trans (hlength.trans hmemory.symm)
    · have hlookup := @page?_modifyPage Swap m₂ new id fun page =>
        { page with present := true, frame := frame }
      refine hlookup.trans ?_
      by_cases hnew : new = id
      · subst hnew
        rw [if_pos rfl, if_pos rfl, hpages, if_neg (Ne.symm hne)]
      · rw [if_neg hnew, if_neg hnew, hpages]
    · simp [departures, modifyFrame, modifyPage, hsame.history, hm₁, PageEvent.departure]
  · refine .inr ⟨hcopy, ?_⟩
    have hstuck : m₁.getSwap cfg host store (host.frameEntryAddress k i) newPage.page pid =
        none := by
      rw [getSwap, writeBytes, if_neg (by rw [hvalue, hlength]; exact hcopy)]
    rw [replace, hevict]
    simp only [hstuck]

/-- With its bits clear the page under the hand is replaced at once. -/
theorem replaceAlgorithm_first (host : Host) (store : SwapStore Swap) {process : ProcessFrame}
    (hclock : m.IsClock k process c)
    (hassigned : ∀ entry ∈ process.frames, entry.assigned = true)
    (hpos : 0 < cfg.framesPerProcess) {slot : Slot PageId} (hslot : c.slots[c.hand]? = some slot)
    (hused : slot.used = false) (hmodified : slot.modified = false) (new : PageId)
    (newPage : PageEntry) (pid : Word) :
    ∃ frame page, m.page? slot.page = some page ∧
      m.replaceAlgorithm cfg host store k new newPage pid =
        (m.replace cfg host store k c.hand frame slot.page page new newPage pid).map
          fun m => (m.setClockHand k (incrementClockHand cfg c.hand), frame) := by
  obtain ⟨entry, page, hentry, hheld, hpage, -, -⟩ := hclock.entry hslot
  have hframe : entry.frame ≠ -1 := by
    simpa [FrameEntry.assigned] using hassigned entry (List.mem_of_getElem? hentry)
  obtain ⟨n, hn⟩ : ∃ n, cfg.framesPerProcess = n + 1 := ⟨cfg.framesPerProcess - 1, by omega⟩
  have hturns : ∀ checkModified, m.twoClockTurns cfg host store k checkModified new newPage pid =
      (m.replace cfg host store k c.hand entry.frame slot.page page new newPage pid).map
        fun m => (m.setClockHand k (incrementClockHand cfg c.hand), entry.frame) := by
    intro checkModified
    obtain ⟨entry', page', hentry', -, hpage', -, hvisit⟩ :=
      clockVisit_eq host store hclock hslot checkModified 0 new newPage pid
    obtain rfl : entry = entry' := Option.some.inj (hentry.symm.trans hentry')
    obtain rfl : page = page' := Option.some.inj (hpage.symm.trans hpage')
    have htakes : Clock.takes checkModified 0 slot = true := by
      simp [Clock.takes, hused, hmodified]
    rw [htakes, if_pos rfl] at hvisit
    rw [twoClockTurns, hn, List.replicate_succ, List.cons_append, clockTurns, hvisit]
    cases m.replace cfg host store k c.hand entry.frame slot.page page new newPage pid <;> rfl
  refine ⟨entry.frame, page, hpage, ?_⟩
  rw [replaceAlgorithm]
  cases cfg.replaceAlgorithm with
  | clock => exact hturns false
  | clockM =>
      simp only [hturns true]
      cases m.replace cfg host store k c.hand entry.frame slot.page page new newPage pid with
      | none => rfl
      | some m' => simp [hframe]

/-- With the hand past the end of the list the module crashes. -/
theorem replaceAlgorithm_past {process : ProcessFrame} (hclock : m.IsClock k process c)
    (hpos : 0 < cfg.framesPerProcess) (hhand : ¬ c.hand < c.slots.length) (new : PageId)
    (newPage : PageEntry) (pid : Word) :
    m.replaceAlgorithm cfg host store k new newPage pid = none := by
  obtain ⟨n, hn⟩ : ∃ n, cfg.framesPerProcess = n + 1 := ⟨cfg.framesPerProcess - 1, by omega⟩
  have hlength : process.frames.length = c.slots.length := by
    simpa using congrArg List.length hclock.slots
  have hentry : process.frames[process.clockHand]? = none := by
    rw [List.getElem?_eq_none_iff, hclock.hand, hlength]
    omega
  have hturns : ∀ checkModified,
      m.twoClockTurns cfg host store k checkModified new newPage pid = none := by
    intro checkModified
    rw [twoClockTurns, hn, List.replicate_succ, List.cons_append, clockTurns, clockVisit]
    simp only [hclock.list, hentry]
  rw [replaceAlgorithm]
  cases cfg.replaceAlgorithm <;> simp only [hturns]

/-- The new page takes the slot of the old one. -/
theorem mem_pages_replaced (hpages : c.pages.Nodup) (hhand : c.hand < c.slots.length)
    (new id : PageId) (hand : ℕ) :
    id ∈ (⟨c.slots.set c.hand ⟨new, false, false⟩, hand⟩ : Clock PageId).pages ↔
      id = new ∨ id ∈ c.pages ∧ id ≠ c.slots[c.hand].page := by
  have hset : (c.slots.set c.hand ⟨new, false, false⟩).map Slot.page = c.pages.set c.hand new :=
    List.map_set
  have hiff := Clock.mem_set_of_nodup (l := c.pages) hpages (by simpa using hhand) new id
  rw [Clock.pages, hset]
  simpa [Clock.pages] using hiff

/-- A replacement and the step of the hand leave a clock, with the new page in the old one's
slot. -/
theorem Occupied.replaced_isClock (hm : m.Occupied cfg owned k c)
    (hhand : c.hand < c.slots.length) {process : ProcessFrame} (hclock : m.IsClock k process c)
    {frame : ℤ} {new : PageId} (hold_new : new ∉ c.pages) (hnew : owned new)
    (h : m.Replaced k c.hand frame c.slots[c.hand].page new m') (hand : ℕ) :
    (m'.setClockHand k hand).IsClock k { process with
        frames := process.frames.modify c.hand fun entry => { entry with pageData := some new }
        clockHand := hand } ⟨c.slots.set c.hand ⟨new, false, false⟩, hand⟩ := by
  have hlength : process.frames.length = c.slots.length := by
    simpa using congrArg List.length hclock.slots
  have hlist : m'.processesFrames = _ := h.processesFrames
  have hpages : (c.slots.set c.hand ⟨new, false, false⟩).map Slot.page =
      c.pages.set c.hand new := List.map_set
  obtain ⟨newPage, hpage, hpresent, hused, hmodified⟩ := hm.resident new hnew
  refine ⟨?_, rfl, ?_, ?_⟩
  · simp [setClockHand, hlist, modifyFrame, hclock.list]
  · apply List.ext_getElem?
    intro i
    rw [List.getElem?_map, List.getElem?_map]
    by_cases hi : c.hand = i
    · subst hi
      rw [List.getElem?_modify_eq, List.getElem?_set_self hhand,
        List.getElem?_eq_getElem (hlength ▸ hhand)]
      simp [clockSlot, h.pages, hpage, hused, hmodified]
    · rw [List.getElem?_modify_ne _ _ hi, List.getElem?_set_ne hi]
      cases hslot : c.slots[i]? with
      | none =>
          have hnone := congrArg (·[i]?) hclock.slots
          simp only [List.getElem?_map, hslot, Option.map_none, Option.map_eq_none_iff] at hnone
          simp [hnone]
      | some slot =>
          obtain ⟨entry, page, hentry, hheld, hpage, hused, hmodified⟩ := hclock.entry hslot
          have hne : new ≠ slot.page := by
            rintro rfl
            exact hold_new (List.mem_map_of_mem (List.mem_of_getElem? hslot))
          simp only [hentry, Option.map_some, clockSlot, hheld, Option.bind_eq_bind,
            Option.bind_some, setClockHand_page?, h.pages, if_neg hne, hpage]
          by_cases hold : c.slots[c.hand].page = slot.page <;> simp [hold, hused, hmodified]
  · rw [hpages]
    exact List.Nodup.set hclock.pages hold_new

theorem Occupied.replaced (hm : m.Occupied cfg owned k c) (hhand : c.hand < c.slots.length)
    {frame : ℤ} {new : PageId} (hold_new : new ∉ c.pages) (hnew : owned new)
    (h : m.Replaced k c.hand frame c.slots[c.hand].page new m') (hand : ℕ) :
    (m'.setClockHand k hand).Occupied cfg owned k
      ⟨c.slots.set c.hand ⟨new, false, false⟩, hand⟩ := by
  obtain ⟨process, hclock, hassigned⟩ := hm.list
  refine ⟨⟨_, hm.replaced_isClock hhand hclock hold_new hnew h hand, ?_⟩, ?_, ?_, ?_,
    fun id hid => ?_⟩
  · intro entry hentry
    obtain ⟨i, hi⟩ := List.getElem?_of_mem hentry
    rw [List.getElem?_modify, Option.map_eq_map] at hi
    obtain ⟨entry', hentry', rfl⟩ := Option.map_eq_some_iff.1 hi
    have := hassigned entry' (List.mem_of_getElem? hentry')
    by_cases hi' : c.hand = i <;> simpa [hi', FrameEntry.assigned] using this
  · simpa using hm.atMost
  · exact h.memory.trans hm.memory
  · intro id hid
    rcases (mem_pages_replaced hclock.pages hhand new id hand).1 hid with rfl | hid
    · exact hnew
    · exact hm.pagesOwned id hid.1
  · have hmem := mem_pages_replaced hclock.pages hhand new id hand
    rw [setClockHand_page?, h.pages, hmem]
    obtain ⟨page, hpage, hpresent, hused, hmodified⟩ := hm.resident id hid
    by_cases hid_new : new = id
    · subst hid_new
      exact ⟨{ page with present := true, frame := frame }, by simp [hpage], by simp, hused,
        hmodified⟩
    · rw [if_neg hid_new]
      by_cases hid_old : c.slots[c.hand].page = id
      · exact ⟨{ page with present := false }, by simp [hid_old, hpage],
          by simp [hid_old, Ne.symm hid_new], hused, hmodified⟩
      · refine ⟨page, by simp [hid_old, hpage], ?_, hused, hmodified⟩
        rw [hpresent]
        simp [Ne.symm hid_new, Ne.symm hid_old]

/-! ## Page faults -/

/-- A fault on a full list either replaces the page under the hand, or crashes the module. -/
theorem access_of_full (store : SwapStore Swap) (pid : Word) (hm : m.Occupied cfg owned k c)
    (hpos : 0 < c.slots.length) (hfull : cfg.framesPerProcess ≤ c.slots.length)
    (hvalue : ∀ bytes, (host.valueBytes bytes).length = cfg.pageSize) {a : MemoryAccess cfg}
    (ha : a.page ∉ c.pages) (howned : owned a.page) :
    (CopyInside cfg host k c.hand ∧ ∃ hhand : c.hand < c.slots.length,
      ∃ m', m.access cfg host store pid k a = some m' ∧
        m'.Occupied cfg owned k
          ⟨c.slots.set c.hand ⟨a.page, false, false⟩, incrementClockHand cfg c.hand⟩ ∧
        m'.departures = m.departures ++ [c.slots[c.hand].page]) ∨
      (¬ (c.hand < c.slots.length ∧ CopyInside cfg host k c.hand) ∧
        m.access cfg host store pid k a = none) := by
  have hperProcess : cfg.framesPerProcess = c.slots.length := Nat.le_antisymm hfull hm.atMost
  obtain ⟨process, hclock, hassigned⟩ := hm.list
  obtain ⟨newPage, hpage, hpresent, -, -⟩ := hm.resident a.page howned
  have habsent : newPage.present = false := by
    cases hnew : newPage.present with
    | false => rfl
    | true => exact absurd (hpresent.1 hnew) ha
  have hnone : hasFreeFrame cfg process = false := by
    have hcount : process.frames.countP FrameEntry.assigned = process.frames.length :=
      List.countP_eq_length.2 hassigned
    have hlength : process.frames.length = c.slots.length := by
      simpa using congrArg List.length hclock.slots
    simp [hasFreeFrame, hcount, hlength, hperProcess]
  have hfault : m.getFrameNumber cfg host store a.page pid (some k) =
      m.replaceAlgorithm cfg host store k a.page newPage pid := by
    rw [getFrameNumber]
    simp [hpage, habsent, hclock.list, hnone]
  have haccess : m.accessLvl2Table cfg host store pid a.pt2Index a.entryIndex (some k) =
      (m.replaceAlgorithm cfg host store k a.page newPage pid).map fun result =>
        (result.1, some (.frameToCpu (BitVec.ofInt 32 result.2))) := by
    rw [accessLvl2Table, if_neg a.named, ← hfault]
    rfl
  by_cases hhand : c.hand < c.slots.length
  · have hslot := List.getElem?_eq_getElem hhand
    obtain ⟨slotEntry, slotPage, -, -, hslotPage, hused, hmodified⟩ := hclock.entry hslot
    have hmem : c.slots[c.hand].page ∈ c.pages := List.mem_map_of_mem (List.getElem_mem hhand)
    obtain ⟨oldPage, holdPage, hold, holdUsed, holdModified⟩ :=
      hm.resident _ (hm.pagesOwned _ hmem)
    obtain rfl : slotPage = oldPage := Option.some.inj (hslotPage.symm.trans holdPage)
    obtain ⟨frame, page, hpage', hreplace⟩ := replaceAlgorithm_first host store hclock
      hassigned (hperProcess ▸ hpos) hslot (hused.symm.trans holdUsed)
      (hmodified.symm.trans holdModified) a.page newPage pid
    obtain rfl : page = slotPage := Option.some.inj (hpage'.symm.trans holdPage)
    have hne : a.page ≠ c.slots[c.hand].page := fun heq => ha (heq ▸ hmem)
    rcases replace_unmodified host store k c.hand frame newPage pid (hold.2 hmem) holdModified hne
        hm.memory hvalue with
      ⟨hcopy, m', hm', hreplaced⟩ | ⟨hcopy, hm'⟩
    · refine .inl ⟨hcopy, hhand, ?_⟩
      have hoccupied := hm.replaced hhand ha howned hreplaced (incrementClockHand cfg c.hand)
      obtain ⟨m'', hoperation, hsame⟩ := operation_sameTables a hoccupied.memory
      refine ⟨m'', ?_, hoccupied.sameTables hsame, hsame.departures.trans hreplaced.departures⟩
      rw [access, haccess, hreplace, hm']
      exact hoperation
    · refine .inr ⟨fun h => hcopy h.2, ?_⟩
      rw [access, haccess, hreplace, hm']
      rfl
  · refine .inr ⟨fun h => hhand h.1, ?_⟩
    rw [access, haccess, replaceAlgorithm_past hclock (hperProcess ▸ hpos) hhand]
    rfl

/-! ## Lists that are short of frames -/

/-- Frame list `k` is shorter than a process may have, and counts as free. -/
def Short (cfg : MemoryConfig) (k : ℕ) (m : Memory Swap) : Prop :=
  ∃ process, m.processesFrames[k]? = some process ∧ hasFreeFrame cfg process = true

theorem Occupied.short (hm : m.Occupied cfg owned k c)
    (hshort : c.slots.length < cfg.framesPerProcess) : m.Short cfg k := by
  obtain ⟨process, hclock, -⟩ := hm.list
  have hlength : process.frames.length = c.slots.length := by
    simpa using congrArg List.length hclock.slots
  have hcount : process.frames.countP FrameEntry.assigned ≤ process.frames.length :=
    List.countP_le_length
  refine ⟨process, hclock.list, ?_⟩
  simp only [hasFreeFrame, decide_eq_true_eq]
  omega

/-- On a short list a fault takes the first entry over and over: no page ever leaves. -/
theorem access_of_short (hm : m.Short cfg k) {a : MemoryAccess cfg}
    (h : m.access cfg host store pid k a = some m') :
    m'.Short cfg k ∧ m'.departures = m.departures := by
  obtain ⟨process, hlist, hfree⟩ := hm
  have hframe : ∀ m₁ frame, m.getFrameNumber cfg host store a.page pid (some k) =
      some (m₁, frame) → m₁.Short cfg k ∧ m₁.departures = m.departures := by
    intro m₁ frame hm₁
    rw [getFrameNumber] at hm₁
    simp only [hlist, hfree, if_true] at hm₁
    repeat' split at hm₁
    all_goals cases hm₁
    · exact ⟨⟨process, hlist, hfree⟩, rfl⟩
    · exact ⟨⟨process, hlist, hfree⟩, rfl⟩
    · rename_i free i _
      refine ⟨⟨{ process with frames := process.frames.modify i fun entry =>
        { entry with pageData := some a.page } }, ?_, ?_⟩, ?_⟩
      · simp [assignPage, modifyFrame, modifyPage, hlist]
      · simpa [hasFreeFrame, countP_assigned_modify] using hfree
      · simp [departures, assignPage, modifyFrame, modifyPage, PageEvent.departure]
  rw [access, accessLvl2Table, if_neg a.named] at h
  cases hnumber : m.getFrameNumber cfg host store a.page pid (some k) with
  | none =>
      rw [MemoryAccess.page] at hnumber
      simp [hnumber] at h
  | some result =>
      obtain ⟨m₁, frame⟩ := result
      obtain ⟨⟨process₁, hlist₁, hfree₁⟩, hdepartures⟩ := hframe m₁ frame hnumber
      rw [MemoryAccess.page] at hnumber
      simp only [hnumber, Option.map_some] at h
      have hsame := sameTables_of_operation h
      exact ⟨⟨process₁, hsame.processesFrames ▸ hlist₁, hfree₁⟩,
        hsame.departures.trans hdepartures⟩

theorem accesses_of_short (hm : m.Short cfg k) {string : List (MemoryAccess cfg)}
    (h : m.accesses cfg host store pid k string = some m') :
    m'.departures = m.departures := by
  have hstep : ∀ (m₁ : Memory Swap) (a : MemoryAccess cfg) (m₂ : Memory Swap),
      m₁.Short cfg k ∧ m₁.departures = m.departures →
        m₁.access cfg host store pid k a = some m₂ →
          m₂.Short cfg k ∧ m₂.departures = m.departures := by
    intro m₁ a m₂ hm₁ hm₂
    obtain ⟨hshort, hdepartures⟩ := access_of_short hm₁.1 hm₂
    exact ⟨hshort, hdepartures.trans hm₁.2⟩
  exact (Machine.foldlM_invariant hstep ⟨hm, rfl⟩ h).2

/-! ## Access strings -/

/-- What a fault needs for the module to do what the textbook algorithm does: the process has
all its frames, the hand is in the list, the copy stays in the memory, and no page is of a lower
class than the one under the hand. -/
structure FairFault (cfg : MemoryConfig) (host : Host) (k hand : ℕ) (c : Clock PageId) : Prop where
  full : cfg.framesPerProcess ≤ c.slots.length
  inList : hand < c.slots.length
  copy : CopyInside cfg host k hand
  lowest : c.HandLowest cfg.enhanced

/-- Every fault of an access string is fair, with the hand of the module and the clock of the
textbook algorithm as they are by then. -/
def FairFaults (cfg : MemoryConfig) (host : Host) (k : ℕ) :
    ℕ → Clock PageId → List (MemoryAccess cfg) → Prop
  | _, _, [] => True
  | hand, c, a :: rest =>
      if a.page ∈ c.pages then
        FairFaults cfg host k hand (c.access cfg.enhanced a.page a.value.isSome).1 rest
      else
        FairFault cfg host k hand c ∧
          FairFaults cfg host k (incrementClockHand cfg hand)
            (c.access cfg.enhanced a.page a.value.isSome).1 rest

/-- Whatever is evicted by the first of some accesses stays the next thing evicted. -/
theorem accesses_departures {c : Clock PageId} (hm : m.Occupied cfg owned k c)
    (hpos : 0 < c.slots.length)
    (hvalue : ∀ bytes, (host.valueBytes bytes).length = cfg.pageSize)
    {string : List (MemoryAccess cfg)} (howned : ∀ a ∈ string, owned a.page)
    (h : m.accesses cfg host store pid k string = some m') :
    ∃ rest, m'.departures = m.departures ++ rest := by
  induction string generalizing m c with
  | nil =>
      cases h
      exact ⟨[], (List.append_nil _).symm⟩
  | cons a rest ih =>
      have hrest : ∀ a ∈ rest, owned a.page := fun a ha => howned a (List.mem_cons_of_mem _ ha)
      rcases Nat.lt_or_ge c.slots.length cfg.framesPerProcess with hshort | hfull
      · exact ⟨[], by rw [accesses_of_short (hm.short hshort) h, List.append_nil]⟩
      · rw [accesses, List.foldlM_cons] at h
        by_cases ha : a.page ∈ c.pages
        · obtain ⟨m₁, haccess, hoccupied, hdepartures⟩ := access_of_mem host store pid hm
            ha
          rw [haccess] at h
          rw [← hdepartures]
          exact ih hoccupied hpos hrest h
        · rcases access_of_full store pid hm hpos hfull hvalue ha
            (howned a List.mem_cons_self) with
            ⟨-, hhand, m₁, haccess, hoccupied, hdepartures⟩ | ⟨-, haccess⟩
          · rw [haccess] at h
            obtain ⟨last, hlast⟩ := ih hoccupied (by simpa using hpos) hrest h
            exact ⟨c.slots[c.hand].page :: last, by rw [hlast, hdepartures, List.append_assoc]; rfl⟩
          · simp [haccess] at h

theorem Occupied.pages_nodup {c : Clock PageId} (hm : m.Occupied cfg owned k c) :
    c.pages.Nodup := by
  obtain ⟨process, hclock, -⟩ := hm.list
  exact hclock.pages

/-- While the hand of the module is in the list it is where the hand of the clock is. -/
theorem incrementClockHand_of_lt {hand hand' length length' : ℕ} (hhand : hand = hand')
    (hlength : length = length') (hlt : hand' < length') (hmemory : length' ≤ cfg.framesInMemory)
    (h : incrementClockHand cfg hand < length) :
    incrementClockHand cfg hand = (hand' + 1) % length' := by
  subst hhand hlength
  rw [incrementClockHand_eq] at h ⊢
  rcases Nat.lt_or_ge (hand + 1) length with hnext | hend
  · rw [Nat.mod_eq_of_lt hnext, Nat.mod_eq_of_lt (by omega)]
  · have hlast : hand + 1 = length := by omega
    rcases Nat.lt_or_ge length cfg.framesInMemory with hmore | hsame
    · rw [hlast, Nat.mod_eq_of_lt hmore] at h
      omega
    · rw [hlast, Nat.le_antisymm hmemory hsame]

/-- Two clocks with the same pages and the same hand have the same page under it. -/
theorem page_under_hand {c₀ c : Clock PageId} (hpages : c₀.pages = c.pages)
    (hsame : c₀.hand = c.hand) (hhand₀ : c₀.hand < c₀.slots.length)
    (hhand : c.hand < c.slots.length) : c₀.slots[c₀.hand].page = c.slots[c.hand].page := by
  have hget := congrArg (·[c₀.hand]?) hpages
  have hslot : c.slots[c₀.hand]? = some c.slots[c.hand] := by
    rw [hsame]
    exact List.getElem?_eq_getElem hhand
  simpa [Clock.pages, List.getElem?_eq_getElem hhand₀, hslot] using hget

/-- Where a page is of a lower class than the one under the hand, the evictions part when the
module has evicted the latter, and stay apart. -/
theorem accesses_departures_ne {c₀ c : Clock PageId} {before : List PageId}
    (hm : m.Occupied cfg owned k c₀) (hpos : 0 < c₀.slots.length)
    (hvalue : ∀ bytes, (host.valueBytes bytes).length = cfg.pageSize)
    {string : List (MemoryAccess cfg)} (howned : ∀ a ∈ string, owned a.page)
    (h : m.accesses cfg host store pid k string = some m') (hhand : c.hand < c.slots.length)
    (hdepartures : m.departures = before ++ [c.slots[c.hand].page]) (hpages : c.pages.Nodup)
    (hlowest : ¬ c.HandLowest cfg.enhanced) (evicted : List PageId) :
    m'.departures ≠
      before ++ (c.pagesAt [c.place (c.choose cfg.enhanced).distance] ++ evicted) := by
  intro heq
  obtain ⟨last, hlast⟩ := accesses_departures hm hpos hvalue howned h
  have hother := c.pagesAt_ne hhand hpages hlowest
  rw [hlast, hdepartures, c.pagesAt_singleton (c.place_lt hhand _)] at heq
  rw [c.pagesAt_singleton (c.place_lt hhand _)] at hother
  simp only [List.append_assoc, List.append_cancel_left_eq, List.cons_append,
    List.nil_append, List.cons.injEq] at heq
  exact hother (congrArg (fun page => [page]) heq.1.symm)

/-- The pages evicted are those of the textbook algorithm exactly if every fault is fair. -/
theorem accesses_iff {c₀ c : Clock PageId} (hm : m.Occupied cfg owned k c₀)
    (hpages : c₀.pages = c.pages) (hhand : c.hand < c.slots.length)
    (hhands : c₀.hand < c₀.slots.length → c₀.hand = c.hand)
    (hmemory : c.slots.length ≤ cfg.framesInMemory)
    (hvalue : ∀ bytes, (host.valueBytes bytes).length = cfg.pageSize)
    {string : List (MemoryAccess cfg)} (howned : ∀ a ∈ string, owned a.page) :
    (∃ m', m.accesses cfg host store pid k string = some m' ∧
      m'.departures =
        m.departures ++ c.evictions cfg.enhanced (string.map MemoryAccess.request)) ↔
      FairFaults cfg host k c₀.hand c string := by
  induction string generalizing m c₀ c with
  | nil =>
      simp [accesses, FairFaults, Clock.evictions]
  | cons a rest ih =>
      have hrest : ∀ a ∈ rest, owned a.page := fun a ha => howned a (List.mem_cons_of_mem _ ha)
      have hlength : c₀.slots.length = c.slots.length := by
        simpa using congrArg List.length hpages
      have hpos : 0 < c₀.slots.length := by omega
      rw [FairFaults, List.map_cons, MemoryAccess.request, Clock.evictions, accesses,
        List.foldlM_cons]
      by_cases ha : a.page ∈ c.pages
      · obtain ⟨m₁, haccess, hoccupied, hdepartures⟩ :=
          access_of_mem host store pid hm (hpages.symm ▸ ha)
        obtain ⟨hafter, hafter_hand, hnone⟩ :=
          c.access_of_mem cfg.enhanced a.value.isSome ha
        have hafter_length : (c.access cfg.enhanced a.page a.value.isSome).1.slots.length =
            c.slots.length := by
          simpa using congrArg List.length hafter
        rw [if_pos ha, hnone, haccess, ← hdepartures, List.nil_append]
        exact ih hoccupied (hpages.trans hafter.symm) (by omega)
          (by rw [hafter_hand]; exact hhands) (by omega) hrest
      · have hpage : owned a.page := howned a List.mem_cons_self
        obtain ⟨hafter, hafter_hand, hevicted⟩ :=
          c.access_of_not_mem cfg.enhanced a.value.isSome ha
        rw [if_neg ha]
        rcases Nat.lt_or_ge c₀.slots.length cfg.framesPerProcess with hshort | hfull
        · -- A short list never loses a page, and the textbook algorithm does.
          constructor
          · rintro ⟨m', hrun, hdepartures⟩
            have hstring : m.accesses cfg host store pid k (a :: rest) = some m' := hrun
            have hsame := accesses_of_short (hm.short hshort) hstring
            rw [hsame, hevicted, c.pagesAt_singleton (c.place_lt hhand _)] at hdepartures
            simp at hdepartures
          · rintro ⟨hfair, -⟩
            have := hfair.full
            omega
        · rcases access_of_full store pid hm hpos hfull hvalue (hpages.symm ▸ ha) hpage with
            ⟨hcopy, hinList, m₁, haccess, hoccupied, hdepartures⟩ | ⟨hcrash, haccess⟩
          · have hsame := hhands hinList
            have hold := page_under_hand hpages hsame hinList hhand
            rw [haccess]
            by_cases hlowest : c.HandLowest cfg.enhanced
            · have hplace : c.place (c.choose cfg.enhanced).distance = c.hand := by
                rw [(c.choose_distance hhand cfg.enhanced).2 hlowest, c.place_zero hhand]
              rw [hplace] at hafter hafter_hand hevicted
              have hafter_length : (c.access cfg.enhanced a.page a.value.isSome).1.slots.length =
                  c.slots.length := by
                simpa using congrArg List.length hafter
              have hevictions : m.departures ++ ((c.access cfg.enhanced a.page a.value.isSome).2 ++
                  (c.access cfg.enhanced a.page a.value.isSome).1.evictions cfg.enhanced
                    (rest.map MemoryAccess.request)) =
                  m₁.departures ++ (c.access cfg.enhanced a.page a.value.isSome).1.evictions
                    cfg.enhanced (rest.map MemoryAccess.request) := by
                rw [hevicted, c.pagesAt_singleton hhand, hdepartures, hold, List.append_assoc]
              have hfair : FairFault cfg host k c₀.hand c :=
                ⟨hlength ▸ hfull, hlength ▸ hinList, hcopy, hlowest⟩
              rw [hevictions, and_iff_right hfair]
              apply ih hoccupied
              · rw [hafter, ← hpages, ← hsame]
                exact List.map_set
              · rw [hafter_hand, hafter_length]
                exact Nat.mod_lt _ (by omega)
              · rw [hafter_hand, List.length_set]
                exact incrementClockHand_of_lt hsame hlength hhand hmemory
              · rw [hafter_length]
                exact hmemory
              · exact hrest
            · constructor
              · rintro ⟨m', hrun, hrun_departures⟩
                rw [hevicted] at hrun_departures
                exact absurd hrun_departures (accesses_departures_ne hoccupied
                  (by simpa using hpos) hvalue hrest hrun hhand (hold ▸ hdepartures)
                  (hpages ▸ hm.pages_nodup) hlowest _)
              · rintro ⟨hfair, -⟩
                exact absurd hfair.lowest hlowest
          · rw [haccess]
            constructor
            · rintro ⟨m', hrun, -⟩
              cases hrun
            · rintro ⟨hfair, -⟩
              exact absurd ⟨hlength ▸ hfair.inList, hfair.copy⟩ hcrash

/-- From clear bits on, as the module leaves them, the accesses of a process evict the pages that
the textbook algorithm evicts if and only if every fault of theirs is fair. -/
theorem evictions_eq_iff (hm : m.Occupied cfg owned k c) (hhand : c.hand < c.slots.length)
    (hmemory : c.slots.length ≤ cfg.framesInMemory)
    (hvalue : ∀ bytes, (host.valueBytes bytes).length = cfg.pageSize)
    {string : List (MemoryAccess cfg)} (howned : ∀ a ∈ string, owned a.page)
    (store : SwapStore Swap) (pid : Word) :
    (∃ m', m.accesses cfg host store pid k string = some m' ∧
      m'.departures =
        m.departures ++ c.evictions cfg.enhanced (string.map MemoryAccess.request)) ↔
      FairFaults cfg host k c.hand c string :=
  accesses_iff hm rfl hhand (fun _ => rfl) hmemory hvalue howned

/-- Three frames, each with a page, and a page in none. -/
def threeOccupied : Memory (Word → ℕ → Bytes) where
  memory := List.replicate 24 0
  framesBitmap := [true, true, true]
  level2Tables := [[⟨0, true, false, false, 0⟩, ⟨1, true, false, false, 1⟩],
    [⟨2, true, false, false, 0⟩, ⟨-1, false, false, false, 1⟩]]
  processesFrames := [⟨[⟨0, some ⟨0, 0⟩⟩, ⟨1, some ⟨0, 1⟩⟩, ⟨2, some ⟨1, 0⟩⟩], 0⟩]
  swap _ _ := List.replicate 8 0

def threeOccupiedClock : Clock PageId :=
  ⟨[⟨⟨0, 0⟩, false, false⟩, ⟨⟨0, 1⟩, false, false⟩, ⟨⟨1, 0⟩, false, false⟩], 0⟩

/-- The four pages of its two level-2 tables. -/
def threeOccupiedPages (id : PageId) : Prop :=
  id ∈ [⟨0, 0⟩, ⟨0, 1⟩, ⟨1, 0⟩, (⟨1, 1⟩ : PageId)]

theorem threeOccupied_occupied :
    threeOccupied.Occupied (.small 3) threeOccupiedPages 0 threeOccupiedClock where
  list := ⟨⟨[⟨0, some ⟨0, 0⟩⟩, ⟨1, some ⟨0, 1⟩⟩, ⟨2, some ⟨1, 0⟩⟩], 0⟩,
    ⟨rfl, rfl, by decide, by decide⟩, by decide⟩
  atMost := by decide
  memory := rfl
  pagesOwned := by
    intro id hid
    have hmem : ∀ id ∈ threeOccupiedClock.pages,
        id ∈ [⟨0, 0⟩, ⟨0, 1⟩, ⟨1, 0⟩, (⟨1, 1⟩ : PageId)] := by decide
    exact hmem id hid
  resident := by
    intro id hid
    simp only [threeOccupiedPages, List.mem_cons, List.not_mem_nil, or_false] at hid
    rcases hid with rfl | rfl | rfl | rfl
    · exact ⟨⟨0, true, false, false, 0⟩, rfl, by decide, rfl, rfl⟩
    · exact ⟨⟨1, true, false, false, 1⟩, rfl, by decide, rfl, rfl⟩
    · exact ⟨⟨2, true, false, false, 0⟩, rfl, by decide, rfl, rfl⟩
    · exact ⟨⟨-1, false, false, false, 1⟩, rfl, by decide, rfl, rfl⟩

/-- A read of a page of the first eight bytes' frame. -/
def readOf (pt2Index entryIndex : Word) (h : pt2Index ≠ -1) : MemoryAccess (.small 3) where
  pt2Index := pt2Index
  entryIndex := entryIndex
  address := 4
  value := none
  named := h
  inside := by decide

/-- A host whose frame entries lie at an address the stray copies survive. -/
def quietHost : Host :=
  { Host.direct with valueBytes := fun bytes => bytes.takeD 8 0 }

theorem evictions_eq_iff_three :
    (∃ m', threeOccupied.accesses (.small 3) quietHost (pageStore (.small 3)) 1 0
        [readOf 0 1 (by decide), readOf 1 1 (by decide)] = some m' ∧
      m'.departures = threeOccupied.departures ++
        threeOccupiedClock.evictions true [(⟨0, 1⟩, false), (⟨1, 1⟩, false)]) := by
  have howned : ∀ a ∈ [readOf 0 1 (by decide), readOf 1 1 (by decide)],
      threeOccupiedPages a.page := by
    intro a ha
    simp only [List.mem_cons, List.not_mem_nil, or_false] at ha
    rcases ha with rfl | rfl
    · exact show _ ∈ _ by decide
    · exact show _ ∈ _ by decide
  refine (evictions_eq_iff threeOccupied_occupied (by decide) (by decide) ?_ howned
    (pageStore (.small 3)) 1).2 ?_
  · exact fun bytes => List.takeD_length 8 bytes 0
  · rw [FairFaults, if_pos (by decide), FairFaults, if_neg (by decide), FairFaults]
    refine ⟨⟨by decide, by decide, ?_, by decide⟩, trivial⟩
    exact ⟨by decide, by decide⟩

/-- The first page is read, and then a page that is not resident: the first page goes, though the
second and the third have not been accessed. -/
theorem not_evictions : ¬ ∃ m', threeOccupied.accesses (.small 3) quietHost (pageStore (.small 3))
      1 0 [readOf 0 0 (by decide), readOf 1 1 (by decide)] = some m' ∧
    m'.departures = threeOccupied.departures ++
      threeOccupiedClock.evictions true [(⟨0, 0⟩, false), (⟨1, 1⟩, false)] := by
  have hrun : (threeOccupied.accesses (.small 3) quietHost (pageStore (.small 3)) 1 0
      [readOf 0 0 (by decide), readOf 1 1 (by decide)]).map departures = some [⟨0, 0⟩] := by decide
  have hreference : threeOccupiedClock.evictions true [(⟨0, 0⟩, false), (⟨1, 1⟩, false)] =
      [⟨0, 1⟩] := by decide
  rintro ⟨m', haccesses, hdepartures⟩
  rw [haccesses, Option.map_some, Option.some.injEq, hdepartures, hreference] at hrun
  exact absurd hrun (by decide)

end Memory

end SistemasOperativos
