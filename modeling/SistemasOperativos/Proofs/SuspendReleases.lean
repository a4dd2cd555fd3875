import SistemasOperativos.Proofs.Evictions
import SistemasOperativos.Proofs.Mapping
import SistemasOperativos.Proofs.SwapSlots

/-!
# The releases of a suspension

`process_suspend` releases the frames of the process inside its loop over the pages, once a page:
a process without pages keeps its frames, and every page after the first passes -1 to the bitmap
for each of them.
-/

open Tally

namespace SistemasOperativos

/-- What `process_suspend` does to the outside of the page tables. -/
inductive SuspendEvent
  /-- The page goes to a slot of the swap file of a pid. -/
  | saved (id : PageId) (pid : Word) (slot : ℕ)
  /-- The bitmap is told to clear a bit. -/
  | cleared (index : ℤ)
deriving DecidableEq, Repr

/-- The calls of `frame_clear_assigned` in `n` runs of `unassign_process_frames`. -/
def releases : List FrameEntry → ℕ → List SuspendEvent
  | _, 0 => []
  | frames, n + 1 =>
      frames.map (fun entry => .cleared entry.frame) ++
        releases (frames.map fun _ => ⟨-1, none⟩) n

/-- The entries after `n` runs of `unassign_process_frames`. -/
def afterReleases : List FrameEntry → ℕ → List FrameEntry
  | frames, 0 => frames
  | frames, n + 1 => afterReleases (frames.map fun _ => ⟨-1, none⟩) n

@[simp] theorem releases_nil (n : ℕ) : releases [] n = [] := by
  induction n with
  | zero => rfl
  | succ n ih => simpa [releases] using ih

/-- The second run, if there is something to release, releases -1. -/
theorem cleared_mem_releases {frames : List FrameEntry} {n : ℕ} (hframes : frames ≠ [])
    (hn : 2 ≤ n) : .cleared (-1) ∈ releases frames n := by
  obtain ⟨n, rfl⟩ := Nat.exists_eq_add_of_le' hn
  obtain ⟨entry, rest, rfl⟩ := List.exists_cons_of_ne_nil hframes
  simp [releases]

/-- Where only frames of the memory are released, they are released at most once. -/
theorem frames_of_releases {frames : List FrameEntry} {n : ℕ}
    (hinside : ∀ index, .cleared index ∈ releases frames n → 0 ≤ index)
    (hnone : n = 0 → ∀ entry ∈ frames, entry.assigned = false) :
    frames = [] ∨ (n = 0 ∧ ∀ entry ∈ frames, entry.assigned = false) ∨
      (n = 1 ∧ ∀ entry ∈ frames, entry.assigned = true) := by
  by_cases hframes : frames = []
  · exact .inl hframes
  right
  obtain rfl | rfl | htwo : n = 0 ∨ n = 1 ∨ 2 ≤ n := by omega
  · exact .inl ⟨rfl, hnone rfl⟩
  · refine .inr ⟨rfl, fun entry hentry => ?_⟩
    have hindex := hinside entry.frame (by simpa [releases] using ⟨entry, hentry, rfl⟩)
    simp only [FrameEntry.assigned, decide_eq_true_eq]
    omega
  · -- the second release of the list passes -1
    have := hinside _ (cleared_mem_releases hframes htwo)
    omega

theorem afterReleases_not_assigned {frames : List FrameEntry} {n : ℕ}
    (h : n = 0 → ∀ entry ∈ frames, entry.assigned = false) :
    ∀ entry ∈ afterReleases frames n, entry.assigned = false := by
  induction n generalizing frames with
  | zero => exact h rfl
  | succ n ih =>
      apply ih
      intro _ entry hentry
      obtain ⟨-, -, rfl⟩ := List.mem_map.1 hentry
      rfl

/-- A frame that no entry has is not released. -/
theorem getElem?_release {frames : List FrameEntry} {frame : ℕ}
    (h : ∀ entry ∈ frames, entry.frame ≠ frame) (bitmap : List Bool) :
    (frames.foldl (fun bitmap entry => frameClearAssigned bitmap entry.frame) bitmap)[frame]? =
      bitmap[frame]? := by
  induction frames generalizing bitmap with
  | nil => rfl
  | cons entry frames ih =>
      obtain ⟨hne, hrest⟩ := List.forall_mem_cons.1 h
      rw [List.foldl_cons, ih hrest, frameClearAssigned]
      split
      · rw [List.getElem?_set_ne (by omega)]
      · rfl

namespace Memory

variable {Swap : Type} {cfg : MemoryConfig} {host : Host} {store : SwapStore Swap} {swap : Swap}
  {m m' : Memory Swap} {created : List (Word × Word)} {pid : Word} {k : ℕ}
  {process : ProcessFrame}

/-! ## The loop -/

/-- The pages in the tables that the entries of a level-1 table name, as `process_suspend` goes
through them. -/
def pagesIn (m : Memory Swap) (entries : List ℕ) : List PageId :=
  entries.flatMap fun table =>
    (List.range ((m.level2Tables[table]?).getD []).length).map (PageId.mk table)

/-- What an iteration of `process_suspend` does, in its order. -/
def entryEvents (pid : Word) (k : ℕ) (m : Memory Swap) (id : PageId) : List SuspendEvent :=
  (match m.page? id with
    | some entry =>
        if entry.present ∧ entry.modified then [.saved id pid entry.page] else []
    | none => []) ++
  (match m.processesFrames[k]? with
    | some process => process.frames.map fun entry => .cleared entry.frame
    | none => [])

/-- What `process_suspend` does, in its order, on a level-1 table with these entries. -/
def suspendEvents (cfg : MemoryConfig) (host : Host) (store : SwapStore Swap) (pid : Word) (k : ℕ)
    (m : Memory Swap) (entries : List ℕ) : List SuspendEvent :=
  Machine.loopLog (suspendEntry cfg host store pid k) (entryEvents pid k) (m.pagesIn entries) m

theorem SameShape.pagesIn (h : SameShape m m') (entries : List ℕ) :
    m'.pagesIn entries = m.pagesIn entries := by
  have hlengths : m'.level2Tables.map List.length = m.level2Tables.map List.length := by
    simpa [Memory.pageNumbers, Function.comp_def] using
      congrArg (List.map List.length) h.pageNumbers
  have hlength : ∀ (m : Memory Swap) (table : ℕ), ((m.level2Tables[table]?).getD []).length =
      ((m.level2Tables.map List.length)[table]?).getD 0 := by
    intro m table
    rw [List.getElem?_map]
    cases m.level2Tables[table]? <;> rfl
  simp only [Memory.pagesIn, hlength, hlengths]

/-- The two loops of `process_suspend` are one loop over the pages, where level-1 entries lead to
the tables they name. -/
theorem foldlM_suspendTable (hderef : ∀ number, host.deref number = some number)
    {entries : List ℕ} (hentries : ∀ table ∈ entries, table < m.level2Tables.length) :
    entries.foldlM (suspendTable cfg host store pid k) m =
      (m.pagesIn entries).foldlM (suspendEntry cfg host store pid k) m := by
  induction entries generalizing m with
  | nil => rfl
  | cons table rest ih =>
      obtain ⟨hlt, hrest⟩ := List.forall_mem_cons.1 hentries
      have hfirst : m.suspendTable cfg host store pid k table =
          (m.pagesIn [table]).foldlM (suspendEntry cfg host store pid k) m := by
        rw [suspendTable, hderef]
        simp [pagesIn, List.getElem?_eq_getElem hlt, List.foldlM_map]
      have hsplit : m.pagesIn (table :: rest) = m.pagesIn [table] ++ m.pagesIn rest := by
        simp [pagesIn]
      rw [List.foldlM_cons, hfirst, hsplit, List.foldlM_append]
      refine Option.bind_congr fun m₁ hm₁ => ?_
      have hshape : SameShape m m₁ :=
        Machine.foldlM_invariant (fun _ _ _ hs h => hs.trans (suspendEntry_sameShape h)) .refl hm₁
      have hlength : m₁.level2Tables.length = m.level2Tables.length := by
        rw [← length_pageNumbers, hshape.pageNumbers, length_pageNumbers]
      rw [ih fun table htable => hlength ▸ hrest table htable, hshape.pagesIn]

/-- An iteration on a page that is not modified releases the frame list, and does nothing else
outside of the page tables. -/
theorem suspendEntry_of_clear (cfg : MemoryConfig) (host : Host) (store : SwapStore Swap)
    (pid : Word) (hm : m.BitsClear) {id : PageId} {page : PageEntry}
    (hpage : m.page? id = some page) (hprocess : m.processesFrames[k]? = some process) :
    ∃ m', m.suspendEntry cfg host store pid k id = some m' ∧ m'.memory = m.memory ∧
      m'.processesFrames[k]? =
        some { process with frames := process.frames.map fun _ => ⟨-1, none⟩ } ∧
      (∀ frame : ℕ, (∀ entry ∈ process.frames, entry.frame ≠ frame) →
        m'.framesBitmap[frame]? = m.framesBitmap[frame]?) ∧
      entryEvents pid k m id = process.frames.map fun entry => .cleared entry.frame := by
  have hlt := (List.getElem?_eq_some_iff.1 hprocess).1
  have hmodified := (hm id page hpage).2
  have hprocess' : (m.modifyPage id fun page =>
      { page with present := false, frame := -1 }).processesFrames[k]? = some process := hprocess
  have hlist : ∀ next : ProcessFrame, (m.processesFrames.set k next)[k]? = some next :=
    fun next => List.getElem?_set_self hlt
  have hsuspended : ∃ m', m.suspendEntry cfg host store pid k id = some m' ∧
      m'.memory = m.memory ∧
      m'.framesBitmap = process.frames.foldl (fun bitmap entry =>
        frameClearAssigned bitmap entry.frame) m.framesBitmap ∧
      m'.processesFrames = m.processesFrames.set k
        { process with frames := process.frames.map fun _ => ⟨-1, none⟩ } := by
    unfold suspendEntry
    simp only [hpage, hmodified, Bool.false_eq_true, and_false, if_false, unassignProcessFrames,
      hprocess']
    exact ⟨_, rfl, rfl, rfl, rfl⟩
  obtain ⟨m', hm', hmemory, hbitmap, hlists⟩ := hsuspended
  refine ⟨m', hm', hmemory, hlists ▸ hlist _, fun frame hframe => ?_, ?_⟩
  · rw [hbitmap, getElem?_release hframe]
  · simp [entryEvents, hpage, hmodified, hprocess]

/-- The loop on pages that are not modified: as many releases as there are pages. -/
theorem foldlM_suspendEntry (cfg : MemoryConfig) (host : Host) (store : SwapStore Swap)
    (pid : Word) (hm : m.BitsClear) {ids : List PageId}
    (hids : ∀ id ∈ ids, ∃ page, m.page? id = some page)
    (hprocess : m.processesFrames[k]? = some process) :
    ∃ m', ids.foldlM (suspendEntry cfg host store pid k) m = some m' ∧ m'.memory = m.memory ∧
      m'.processesFrames[k]? =
        some { process with frames := afterReleases process.frames ids.length } ∧
      (∀ frame : ℕ, (∀ entry ∈ process.frames, entry.frame ≠ frame) →
        m'.framesBitmap[frame]? = m.framesBitmap[frame]?) ∧
      Machine.loopLog (suspendEntry cfg host store pid k) (entryEvents pid k) ids m =
        releases process.frames ids.length := by
  induction ids generalizing m process with
  | nil => exact ⟨m, rfl, rfl, hprocess, fun _ _ => rfl, rfl⟩
  | cons id rest ih =>
      obtain ⟨⟨page, hpage⟩, hrest⟩ := List.forall_mem_cons.1 hids
      obtain ⟨m₁, hm₁, hmemory, hprocess₁, hbits, hevents⟩ :=
        suspendEntry_of_clear cfg host store pid hm hpage hprocess
      have hexists : ∀ id ∈ rest, ∃ page, m₁.page? id = some page := by
        intro id' hid'
        obtain ⟨page', hpage'⟩ := hrest id' hid'
        have hnumber := page?_map_page m₁ id'
        rw [(suspendEntry_sameShape hm₁).pageNumbers, ← page?_map_page, hpage'] at hnumber
        obtain ⟨page₁, hpage₁, -⟩ := Option.map_eq_some_iff.1 hnumber
        exact ⟨page₁, hpage₁⟩
      obtain ⟨m', hm', hmemory', hprocess', hbits', hlog⟩ :=
        ih (suspendEntry_bitsClear hm₁ hm) hexists hprocess₁
      refine ⟨m', ?_, hmemory'.trans hmemory, hprocess', fun frame hframe => ?_, ?_⟩
      · rw [List.foldlM_cons, hm₁]
        exact hm'
      · rw [hbits' frame, hbits frame hframe]
        intro entry hentry
        obtain ⟨-, -, rfl⟩ := List.mem_map.1 hentry
        show (-1 : ℤ) ≠ frame
        omega
      · rw [Machine.loopLog_cons hm₁, hevents, hlog]
        rfl

/-! ## The pages of a process -/

theorem ne_zero_of_mem_creations {history : List MemoryAction} {processSize : Word}
    (h : (pid, processSize) ∈ creations history) : pid ≠ 0 := by
  obtain ⟨action, -, haction⟩ := List.mem_filterMap.1 h
  cases action with
  | processNew pid' processSize' =>
      simp only [MemoryAction.creation] at haction
      split at haction
      · cases haction
      · cases haction
        assumption
  | _ => cases haction

theorem Numbered.owns_iff (hm : m.Numbered cfg created) {i : ℕ} {id : PageId} :
    m.Owns i id ↔ ∃ k, HasTable cfg created i k ∧ id.table = tablePosition cfg created i k := by
  cases hi : (tableCounts cfg created)[i]? with
  | none =>
      have hge : m.level1Tables.length ≤ i := by
        rw [hm.tables]
        simpa [tableCounts] using hi
      simp [Owns, HasTable, hi, List.getElem?_eq_none hge]
  | some n => simp [Owns, HasTable, hm.entries i n hi, hi, eq_comm]

/-- No two processes have a page in common. -/
theorem Numbered.owner_unique (hm : m.Numbered cfg created) {i j : ℕ} {id : PageId}
    (hi : m.Owns i id) (hj : m.Owns j id) : i = j := by
  obtain ⟨k, hk, htable⟩ := hm.owns_iff.1 hi
  obtain ⟨l, hl, htable'⟩ := hm.owns_iff.1 hj
  exact (hk.position_injective hl (htable.symm.trans htable')).1

/-- The loops of `process_suspend` go through as many pages as the tables of the process have. -/
theorem Numbered.length_pagesIn (hm : m.Numbered cfg created) {i n : ℕ}
    (hi : (tableCounts cfg created)[i]? = some n) :
    (m.pagesIn ((m.level1Tables[i]?).getD [])).length = n * cfg.entriesPerTable := by
  have hlength : ∀ k < n, ((m.level2Tables[tablePosition cfg created i k]?).getD []).length =
      cfg.entriesPerTable := by
    intro k hk
    have htable : HasTable cfg created i k := ⟨n, hi, hk⟩
    have hget : m.pageNumbers[tablePosition cfg created i k]? =
        some (List.range cfg.entriesPerTable) := by
      rw [hm.pages, List.getElem?_replicate_of_lt htable.position_lt]
    rw [pageNumbers, List.getElem?_map, Option.map_eq_some_iff] at hget
    obtain ⟨entries, hentries, hnumbers⟩ := hget
    rw [hentries, Option.getD_some, ← List.length_range (n := cfg.entriesPerTable), ← hnumbers,
      List.length_map]
  have hsum : (List.range n).map (fun k =>
      ((m.level2Tables[tablePosition cfg created i k]?).getD []).length) =
        List.replicate n cfg.entriesPerTable := by
    refine List.eq_replicate_iff.2 ⟨by simp, fun length hmem => ?_⟩
    obtain ⟨k, hk, rfl⟩ := List.mem_map.1 hmem
    exact hlength k (List.mem_range.1 hk)
  rw [hm.entries i n hi, Option.getD_some, pagesIn, List.length_flatMap]
  simp only [List.length_map, List.length_range, List.map_map, Function.comp_def]
  rw [hsum, List.sum_replicate_nat]

/-! ## The whole suspension -/

/-- What `process_suspend` does to the process at place `i`, whose frames were those of `process`,
in the order `events`. -/
structure Suspended (cfg : MemoryConfig) (pid : Word) (i : ℕ) (process : ProcessFrame)
    (events : List SuspendEvent) (m m' : Memory Swap) (answer : Option MemoryAnswer) : Prop where
  /-- Each present and modified page is saved once, before its frame is released. -/
  saved : ∀ id page, m.Owns i id → m.page? id = some page → page.present = true →
    page.modified = true → ∃ before after,
      events = before ++ .saved id pid page.page :: after ∧
        (∀ slot, .saved id pid slot ∉ before ++ after) ∧ .cleared page.frame ∉ before
  /-- Each frame is released once. -/
  released : ∀ entry ∈ process.frames, entry.assigned = true →
    events.count (.cleared entry.frame) = 1
  inside : ∀ index : ℤ, .cleared index ∈ events → 0 ≤ index ∧ index < cfg.framesInMemory
  pages : ∀ id page, m.Owns i id → m'.page? id = some page →
    page.present = false ∧ page.modified = false
  entries : ∃ process', m'.processesFrames[i]? = some process' ∧
    ∀ entry ∈ process'.frames, entry.assigned = false
  otherPages : ∀ j id, j ≠ i → m.Owns j id → m'.page? id = m.page? id
  otherFrames : ∀ j, j ≠ i → m'.processesFrames[j]? = m.processesFrames[j]?
  otherBits : ∀ frame : ℕ, (∀ entry ∈ process.frames, entry.frame ≠ frame) →
    m'.framesBitmap[frame]? = m.framesBitmap[frame]?
  contents : m'.memory = m.memory
  replied : answer = some .processSuspensionReady

/-- `process_suspend` suspends the process at place `index` of the lists. -/
def SuspendsRight (cfg : MemoryConfig) (host : Host) (store : SwapStore Swap) (pid index : Word)
    (process : ProcessFrame) (m : Memory Swap) : Prop :=
  ∃ m' answer, m.processSuspend cfg host store pid index index = some (m', answer) ∧
    Suspended cfg pid index.toNat process
      (suspendEvents cfg host store pid index.toNat m
        ((m.level1Tables[index.toNat]?).getD [])) m m' answer

/-- What a suspension of a process of reachable state always does: `n` is the number of pages. -/
theorem processSuspend_of_run {history : List MemoryAction} {processSize index : Word}
    (h : (memoryModule cfg host store swap).run history (start cfg swap) = some m)
    (hi : (creations history)[index.toNat]? = some (pid, processSize))
    (hprocess : m.processesFrames[index.toNat]? = some process)
    (hderef : ∀ number, host.deref number = some number) :
    ∃ m', m.processSuspend cfg host store pid index index =
        some (m', some .processSuspensionReady) ∧ m'.memory = m.memory ∧
      m'.processesFrames[index.toNat]? = some { process with
        frames := afterReleases process.frames
          (level2PagesRequired cfg processSize * cfg.entriesPerTable) } ∧
      (∀ frame : ℕ, (∀ entry ∈ process.frames, entry.frame ≠ frame) →
        m'.framesBitmap[frame]? = m.framesBitmap[frame]?) ∧
      suspendEvents cfg host store pid index.toNat m ((m.level1Tables[index.toNat]?).getD []) =
        releases process.frames (level2PagesRequired cfg processSize * cfg.entriesPerTable) ∧
      m'.BitsClear := by
  have hm := numbered_of_run h
  have hreachable : (memoryModule cfg host store swap).Reachable m :=
    Machine.reachable_run .initial h
  have hclear := bitsClear_of_reachable hreachable
  have hpid := ne_zero_of_mem_creations (List.mem_of_getElem? hi)
  have hcount : (tableCounts cfg (creations history))[index.toNat]? =
      some (level2PagesRequired cfg processSize) := by
    simp [tableCounts, hi]
  have hentries := hm.entries _ _ hcount
  obtain ⟨entries, hlist⟩ : ∃ entries, m.level1Tables[index.toNat]? = some entries := ⟨_, hentries⟩
  have hlength := hm.length_pagesIn hcount
  rw [hlist, Option.getD_some] at hlength ⊢
  have htables : ∀ table ∈ entries, table < m.level2Tables.length := by
    intro table htable
    obtain rfl := Option.some.inj (hlist.symm.trans hentries)
    obtain ⟨k, hk, rfl⟩ := List.mem_map.1 htable
    rw [hm.length_level2Tables]
    exact Blocks.start_add_lt_sum hcount (List.mem_range.1 hk)
  have hids : ∀ id ∈ m.pagesIn entries, ∃ page, m.page? id = some page := by
    intro id hid
    obtain ⟨table, htable, hid⟩ := List.mem_flatMap.1 hid
    obtain ⟨j, hj, rfl⟩ := List.mem_map.1 hid
    have hlt := htables table htable
    rw [List.getElem?_eq_getElem hlt, Option.getD_some, List.mem_range] at hj
    exact ⟨m.level2Tables[table][j],
      by simp [page?, List.getElem?_eq_getElem hlt, List.getElem?_eq_getElem hj]⟩
  obtain ⟨m', hm', hmemory, hframes, hbits, hevents⟩ :=
    foldlM_suspendEntry cfg host store pid hclear hids hprocess
  rw [hlength] at hframes hevents
  have hsuspend : m.processSuspend cfg host store pid index index =
      some (m', some .processSuspensionReady) := by
    rw [processSuspend, if_neg hpid, hlist]
    simp only [foldlM_suspendTable hderef htables, hm', Option.map_some]
  refine ⟨m', hsuspend, hmemory, hframes, hbits, hevents, ?_⟩
  exact processSuspend_invariant hsuspend (fun _ _ _ hm h => suspendEntry_bitsClear h hm) hclear

/-- One release of a list releases each of its frames once. -/
theorem count_cleared_releases (hplaced : m.Placed) (htracked : m.Tracked cfg)
    (hprocess : m.processesFrames[k]? = some process) {entry : FrameEntry}
    (hentry : entry ∈ process.frames) (hassigned : entry.assigned = true) :
    (releases process.frames 1).count (.cleared entry.frame) = 1 := by
  obtain ⟨frame, hframe⟩ := Int.eq_ofNat_of_zero_le (hplaced.nonneg hprocess hentry hassigned)
  have hone := htracked.tally_le_one hprocess frame
  have hpos : 0 < (process.frames.map FrameEntry.frame).count (frame : ℤ) :=
    List.count_pos_iff.2 (hframe ▸ List.mem_map_of_mem hentry)
  have hcount : (releases process.frames 1).count (.cleared entry.frame) =
      (process.frames.map FrameEntry.frame).count (frame : ℤ) := by
    rw [releases, releases, List.append_nil, hframe,
      ← List.count_map_of_injective (process.frames.map FrameEntry.frame)
        SuspendEvent.cleared fun _ _ h => SuspendEvent.cleared.inj h, List.map_map]
    rfl
  rw [tally_eq_count] at hone
  omega

/-- One release of a list whose entries all have a frame releases frames of the memory. -/
theorem releases_inside (hm : (memoryModule cfg host store swap).Reachable m)
    (hprocess : m.processesFrames[k]? = some process)
    (hall : ∀ entry ∈ process.frames, entry.assigned = true) {index : ℤ}
    (hindex : .cleared index ∈ releases process.frames 1) :
    0 ≤ index ∧ index < cfg.framesInMemory := by
  rw [releases, releases, List.append_nil] at hindex
  obtain ⟨entry, hentry, heq⟩ := List.mem_map.1 hindex
  obtain rfl := SuspendEvent.cleared.inj heq
  have hnonneg := (placed_of_reachable hm).nonneg hprocess hentry (hall entry hentry)
  obtain ⟨frame, hframe⟩ := Int.eq_ofNat_of_zero_le hnonneg
  have hlt := (frames_tracked hm frame).2.1
    ⟨process, List.mem_of_getElem? hprocess, entry, hentry, hframe⟩
  omega

/-- After any history of requests the suspension of a process is right if and only if the process
has no frames at all, or no pages and no frames left, or one page and all its frames. -/
theorem suspendsRight_iff {history : List MemoryAction} {processSize index : Word}
    (h : (memoryModule cfg host store swap).run history (start cfg swap) = some m)
    (hi : (creations history)[index.toNat]? = some (pid, processSize))
    (hprocess : m.processesFrames[index.toNat]? = some process)
    (hderef : ∀ number, host.deref number = some number) :
    SuspendsRight cfg host store pid index process m ↔
      process.frames = [] ∨
      (level2PagesRequired cfg processSize = 0 ∧
        ∀ entry ∈ process.frames, entry.assigned = false) ∨
      (level2PagesRequired cfg processSize * cfg.entriesPerTable = 1 ∧
        ∀ entry ∈ process.frames, entry.assigned = true) := by
  have hm := numbered_of_run h
  have hreachable : (memoryModule cfg host store swap).Reachable m :=
    Machine.reachable_run .initial h
  have hclear := bitsClear_of_reachable hreachable
  have hplaced := placed_of_reachable hreachable
  have htracked := tracked_of_reachable hreachable
  have hpid := ne_zero_of_mem_creations (List.mem_of_getElem? hi)
  obtain ⟨m', hsuspend, hmemory, hframes, hbits, hevents, hclear'⟩ :=
    processSuspend_of_run h hi hprocess hderef
  obtain ⟨n, hn⟩ : ∃ n, n = level2PagesRequired cfg processSize * cfg.entriesPerTable := ⟨_, rfl⟩
  have hzero : level2PagesRequired cfg processSize = 0 ↔ n = 0 := by
    rw [hn, Nat.mul_eq_zero]
    have := cfg.entriesPerTable_pos
    omega
  rw [← hn] at hframes hevents ⊢
  rw [hzero]
  constructor
  · rintro ⟨m'', answer, heq, hright⟩
    obtain ⟨rfl, -⟩ := Prod.mk.injEq .. ▸ Option.some.inj (hsuspend.symm.trans heq)
    have hinside := hright.inside
    rw [hevents] at hinside
    refine frames_of_releases (fun index hindex => (hinside index hindex).1) fun hn => ?_
    obtain ⟨process', hprocess', hentries⟩ := hright.entries
    obtain rfl := Option.some.inj (hframes.symm.trans hprocess')
    rw [hn] at hentries
    exact hentries
  · intro hcases
    obtain ⟨hretires, habsent⟩ := processSuspend_retires hpid hsuspend
      fun level1Entry _ table htable => by
        rw [hderef, Option.mem_some_iff] at htable
        exact htable.symm
    refine ⟨m', _, hsuspend, ?_⟩
    rw [hevents]
    refine ⟨?saved, ?released, ?inside, ?pages, ?entries, ?others, hretires.lists, hbits, hmemory,
      rfl⟩
    case saved =>
      intro id page _ hpage _ hmodified
      rw [(hclear id page hpage).2] at hmodified
      cases hmodified
    case pages =>
      intro id page hid hpage
      exact ⟨habsent id hid page hpage, (hclear' id page hpage).2⟩
    case others =>
      intro j id hj hid
      exact hretires.pages id fun hown => hj (hm.owner_unique hid hown)
    case entries =>
      refine ⟨_, hframes, afterReleases_not_assigned fun hn entry hentry => ?_⟩
      rcases hcases with hnone | ⟨-, hnone⟩ | ⟨hone, -⟩
      · simp [hnone] at hentry
      · exact hnone entry hentry
      · omega
    case released =>
      intro entry hentry hassigned
      rcases hcases with hnone | ⟨-, hnone⟩ | ⟨rfl, -⟩
      · simp [hnone] at hentry
      · simp [hnone entry hentry] at hassigned
      · exact count_cleared_releases hplaced htracked hprocess hentry hassigned
    case inside =>
      intro index' hindex
      rcases hcases with hnone | ⟨rfl, -⟩ | ⟨rfl, hall⟩
      · simp [hnone] at hindex
      · simp [releases] at hindex
      · exact releases_inside hreachable hprocess hall hindex

/-- Tables of one page, in a memory that one process takes whole. -/
def onePageTables : MemoryConfig :=
  { MemoryConfig.small 4 with entriesPerTable := 1, entriesPerTable_pos := by decide }

/-- A process of one page, resident when it is suspended. -/
theorem suspendsRight_onePage : ∃ m,
    (memoryModule onePageTables .direct (pageStore onePageTables) fun _ _ => []).run
        [.processNew 1 8, .accessLvl2Table 1 0 0 0 (some 0)] (start onePageTables fun _ _ => []) =
      some m ∧
      SuspendsRight onePageTables .direct (pageStore onePageTables) 1 0
        ⟨[⟨0, some ⟨0, 0⟩⟩, ⟨1, none⟩, ⟨2, none⟩], 0⟩ m := by
  have hprocess : ((memoryModule onePageTables .direct (pageStore onePageTables) fun _ _ => []).run
      [.processNew 1 8, .accessLvl2Table 1 0 0 0 (some 0)]
      (start onePageTables fun _ _ => [])).bind (fun m => m.processesFrames[(0 : Word).toNat]?) =
        some ⟨[⟨0, some ⟨0, 0⟩⟩, ⟨1, none⟩, ⟨2, none⟩], 0⟩ := by decide +kernel
  obtain ⟨m, hm, hprocess⟩ := Option.bind_eq_some_iff.1 hprocess
  exact ⟨m, hm, (suspendsRight_iff hm rfl hprocess fun _ => rfl).2 (.inr (.inr (by decide)))⟩

/-- A process of two pages in the two frames it has: the second page releases -1 twice. -/
theorem not_suspendsRight : ∃ m,
    (memoryModuleSmall 2).run [.processNew 1 16] (start (.small 2) fun _ _ => []) = some m ∧
      suspendEvents (.small 2) .direct (pageStore (.small 2)) 1 0 m
          ((m.level1Tables[0]?).getD []) =
        [.cleared 0, .cleared 1, .cleared (-1), .cleared (-1)] ∧
      ¬ SuspendsRight (.small 2) .direct (pageStore (.small 2)) 1 0
        ⟨[⟨0, none⟩, ⟨1, none⟩], 0⟩ m := by
  refine ⟨_, rfl, by decide, ?_⟩
  rintro ⟨m', answer, -, hright⟩
  have hinside := hright.inside (-1) (by decide)
  exact absurd hinside.1 (by decide)

end Memory
end SistemasOperativos
