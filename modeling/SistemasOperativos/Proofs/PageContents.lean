import SistemasOperativos.Proofs.FrameOwnership
import Mathlib.Data.List.Induction

/-!
# What a page holds when it comes back

The contents of a page that is not resident are those it had when it left its frame, and zeros
before.  The memory module never sets a modified bit, so it never writes to the swap, and it
serves a page fault without reading from it: it keeps the contents of the pages as long as
nothing has to be moved either way.
-/

namespace SistemasOperativos

/-! ## The contents of pages -/

/-- The page an event is about. -/
def PageEvent.page : PageEvent → PageId
  | .loaded page _ => page
  | .left page _ => page

/-- What the contents of a page become by an event. -/
def PageEvent.contents (id : PageId) (bytes : Bytes) : PageEvent → Bytes
  | .loaded .. => bytes
  | .left page data => if page = id then data else bytes

/-- The bytes a page had when it was last resident, and zeros if it never was. -/
def lastBytes (cfg : MemoryConfig) (history : List PageEvent) (id : PageId) : Bytes :=
  history.foldl (PageEvent.contents id) cfg.zeroPage

@[simp] theorem lastBytes_append (cfg : MemoryConfig) (history : List PageEvent)
    (event : PageEvent) (id : PageId) :
    lastBytes cfg (history ++ [event]) id = event.contents id (lastBytes cfg history id) := by
  simp [lastBytes]

/-- Events about other pages leave the contents of a page alone. -/
theorem lastBytes_of_forall_ne {cfg : MemoryConfig} {history : List PageEvent} {id : PageId}
    (h : ∀ event ∈ history, event.page ≠ id) : lastBytes cfg history id = cfg.zeroPage := by
  induction history using List.reverseRecOn with
  | nil => rfl
  | append_singleton history event ih =>
      rw [lastBytes_append, ih fun e he => h e (List.mem_append_left _ he)]
      have := h event (by simp)
      cases event with
      | loaded => rfl
      | left page bytes => exact if_neg this

namespace Memory

variable {Swap : Type} {cfg : MemoryConfig} {host : Host} {store : SwapStore Swap}
  {m m' : Memory Swap}

/-- The swap slot of a page. -/
def slot (store : SwapStore Swap) (m : Memory Swap) (id : PageId) (page : PageEntry) : Bytes :=
  store.swapGetPage (m.owners.getD id.table 0) page.page m.swap

/-- A page that becomes resident has the bytes it had when it was last resident, and the slot of
a page that is not resident has them. -/
structure KeepsPages (cfg : MemoryConfig) (store : SwapStore Swap) (m : Memory Swap) : Prop where
  loads : ∀ before id bytes after, m.history = before ++ .loaded id bytes :: after →
    bytes = lastBytes cfg before id
  kept : ∀ id page, m.page? id = some page → page.present = false →
    m.slot store id page = lastBytes cfg m.history id

/-! ## Lookups -/

theorem page?_modifyPage (id id' : PageId) (f : PageEntry → PageEntry) :
    (m.modifyPage id f).page? id' = if id = id' then (m.page? id').map f else m.page? id' := by
  obtain ⟨table, entry⟩ := id
  obtain ⟨table', entry'⟩ := id'
  simp only [page?, modifyPage, PageId.mk.injEq, List.getElem?_modify]
  by_cases htable : table = table'
  · subst htable
    cases m.level2Tables[table]? with
    | none => simp
    | some entries =>
        simp only [if_true, Option.map_eq_map, Option.map_some, Option.bind_eq_bind,
          Option.bind_some, List.getElem?_modify, true_and]
        split <;> cases entries[entry']? <;> simp
  · simp [htable]

/-- The loop of `page_table_init` adds tables and notes their owner. -/
theorem addLevel2Tables_eq (pid : Word) (n : ℕ) (entries : List ℕ) :
    (addLevel2Tables cfg pid n entries m).2 =
      { m with
        level2Tables := m.level2Tables ++ List.replicate n (newLevel2Table cfg)
        owners := m.owners ++ List.replicate n pid } := by
  induction n generalizing entries m with
  | zero => simp [addLevel2Tables]
  | succ n ih =>
      rw [addLevel2Tables, ih]
      simp [List.replicate_succ]

/-- A page of the new tables is not resident and not modified. -/
theorem mem_newLevel2Table {page : PageEntry} (h : page ∈ newLevel2Table cfg) :
    page.present = false ∧ page.modified = false := by
  obtain ⟨j, -, rfl⟩ := List.mem_map.1 h
  exact ⟨rfl, rfl⟩

/-- After `process_new` a page is an old one, or one of the new tables. -/
theorem page?_append {tables : List (List PageEntry)} {id : PageId} {page : PageEntry}
    (htables : m'.level2Tables = m.level2Tables ++ tables) (h : m'.page? id = some page) :
    m.page? id = some page ∨
      (m.level2Tables.length ≤ id.table ∧ id.table < m.level2Tables.length + tables.length ∧
        ∃ entries ∈ tables, page ∈ entries) := by
  simp only [page?, htables, Option.bind_eq_bind, Option.bind_eq_some_iff] at h ⊢
  obtain ⟨entries, htable, hentry⟩ := h
  rcases Nat.lt_or_ge id.table m.level2Tables.length with hlt | hge
  · rw [List.getElem?_append_left hlt] at htable
    exact .inl ⟨entries, htable, hentry⟩
  · rw [List.getElem?_append_right hge] at htable
    have hlt := (List.getElem?_eq_some_iff.1 htable).1
    exact .inr ⟨hge, by omega, entries, List.mem_of_getElem? htable,
      List.mem_of_getElem? hentry⟩

/-! ## The invariant -/

/-- No page is modified, and a list with a frame for every entry has no page. -/
structure Stored (cfg : MemoryConfig) (store : SwapStore Swap) (m : Memory Swap) : Prop where
  unmodified : ∀ id page, m.page? id = some page → page.modified = false
  full : ∀ process ∈ m.processesFrames, hasFreeFrame cfg process = false →
    ∀ entry ∈ process.frames, entry.pageData = none
  owners : m.owners.length = m.level2Tables.length
  events : ∀ event ∈ m.history, event.page.table < m.level2Tables.length
  keeps : m.KeepsPages cfg store

/-- An event that is no load keeps the loads right. -/
theorem KeepsPages.loads_append {history : List PageEvent} {event : PageEvent}
    (hloads : ∀ before id bytes after, history = before ++ .loaded id bytes :: after →
      bytes = lastBytes cfg before id)
    (hevent : ∀ id bytes, event = .loaded id bytes → bytes = lastBytes cfg history id)
    (before : List PageEvent) (id : PageId) (bytes : Bytes) (after : List PageEvent)
    (h : history ++ [event] = before ++ .loaded id bytes :: after) :
    bytes = lastBytes cfg before id := by
  rcases List.eq_nil_or_concat after with rfl | ⟨after, last, rfl⟩
  · obtain ⟨rfl, hlast⟩ := List.append_inj' h rfl
    exact hevent id bytes (List.singleton_inj.1 hlast)
  · rw [List.concat_eq_append, ← List.cons_append, ← List.append_assoc] at h
    exact hloads before id bytes after (List.append_inj' h rfl).1

/-- A list without a free frame has all the frames a process may have. -/
theorem assigned_of_full {process : ProcessFrame}
    (hle : process.frames.length ≤ cfg.framesPerProcess)
    (hfree : hasFreeFrame cfg process = false) :
    process.frames.length = cfg.framesPerProcess ∧
      ∀ entry ∈ process.frames, entry.assigned = true := by
  have hcount : process.frames.countP FrameEntry.assigned ≤ process.frames.length :=
    List.countP_le_length
  have hnone : ¬ process.frames.countP FrameEntry.assigned < cfg.framesPerProcess := by
    simpa [hasFreeFrame] using hfree
  exact ⟨by omega, List.countP_eq_length.1 (by omega)⟩

theorem countP_assigned (frames : List FrameEntry) :
    (frames.map FrameEntry.frame).countP (fun frame => decide (frame ≠ -1)) =
      frames.countP FrameEntry.assigned :=
  List.countP_map

/-- A page that comes into an entry changes nothing about which entries have a frame. -/
theorem countP_assigned_modify (frames : List FrameEntry) (i : ℕ) (id : PageId) :
    (frames.modify i fun entry => { entry with pageData := some id }).countP
      FrameEntry.assigned = frames.countP FrameEntry.assigned := by
  rw [← countP_assigned, ← countP_assigned]
  congr 1
  exact map_modify_of_eq (g := FrameEntry.frame)
    (f := fun entry : FrameEntry => { entry with pageData := some id }) (fun _ => rfl) frames i

/-- The frame lists stay without a page where they are full. -/
theorem full_modifyFrame {k i : ℕ} {process : ProcessFrame} {id : PageId}
    (hprocess : m.processesFrames[k]? = some process) (hfree : hasFreeFrame cfg process = true)
    (hfull : ∀ process ∈ m.processesFrames, hasFreeFrame cfg process = false →
      ∀ entry ∈ process.frames, entry.pageData = none) :
    ∀ process ∈ (m.modifyFrame k i fun entry =>
        { entry with pageData := some id }).processesFrames,
      hasFreeFrame cfg process = false → ∀ entry ∈ process.frames, entry.pageData = none := by
  intro process' hmem hnone
  obtain ⟨j, hj⟩ := List.getElem?_of_mem hmem
  simp only [modifyFrame, List.getElem?_modify] at hj
  by_cases heq : k = j
  · subst heq
    simp only [if_true, hprocess, Option.map_eq_map, Option.map_some, Option.some.injEq] at hj
    subst hj
    -- the list that takes the page is not full
    simp only [hasFreeFrame, countP_assigned_modify] at hnone hfree
    exact absurd hfree (by simpa using hnone)
  · simp only [heq, if_false] at hj
    exact hfull process' (List.mem_of_getElem? (by simpa using hj)) hnone

/-- Releasing the frames of a process leaves the pages alone. -/
theorem unassignProcessFrames_eq {k : ℕ} (h : m.unassignProcessFrames k = some m') :
    ∃ bitmap processes, m' = { m with framesBitmap := bitmap, processesFrames := processes } ∧
      ∀ process ∈ processes, process ∈ m.processesFrames ∨
        ∀ entry ∈ process.frames, entry.pageData = none := by
  unfold unassignProcessFrames at h
  split at h <;> cases h
  refine ⟨_, _, rfl, fun process hmem => ?_⟩
  rcases List.mem_or_eq_of_mem_set hmem with hold | rfl
  · exact .inl hold
  · refine .inr fun entry hentry => ?_
    obtain ⟨-, -, rfl⟩ := List.mem_map.1 hentry
    rfl

/-! ## Suspension -/

/-- A page in a frame has the bytes its swap slot has. -/
def Still (cfg : MemoryConfig) (store : SwapStore Swap) (m : Memory Swap) (id : PageId) : Prop :=
  ∀ page ∈ m.page? id, page.present = true →
    m.frameBytes cfg page.frame = m.slot store id page

instance (id : PageId) : Decidable (m.Still cfg store id) :=
  inferInstanceAs (Decidable (∀ page ∈ m.page? id, _ → _))

/-- A state `m` on the way through the suspension that starts in `m₀`. -/
structure Suspending (cfg : MemoryConfig) (store : SwapStore Swap) (m₀ m : Memory Swap) :
    Prop where
  memory : m.memory = m₀.memory
  swap : m.swap = m₀.swap
  owners : m.owners = m₀.owners
  pages : ∀ id page, m.page? id = some page → ∃ page₀, m₀.page? id = some page₀ ∧
    page₀.page = page.page ∧ (page.present = true → page = page₀)
  stored : m.Stored cfg store

theorem Suspending.refl (hm : m.Stored cfg store) : Suspending cfg store m m :=
  ⟨rfl, rfl, rfl, fun _ page hpage => ⟨page, hpage, rfl, fun _ => rfl⟩, hm⟩

theorem Suspending.slot_eq {m₀ : Memory Swap} (hm : Suspending cfg store m₀ m) (id : PageId)
    {page page₀ : PageEntry} (hpage : page₀.page = page.page) :
    m.slot store id page = m₀.slot store id page₀ := by
  rw [slot, slot, hm.swap, hm.owners, hpage]

/-- The page taken out of its frame, with the history it leaves. -/
def dropPage (cfg : MemoryConfig) (m : Memory Swap) (id : PageId) (page : PageEntry) :
    Memory Swap :=
  { m.modifyPage id fun page => { page with present := false, frame := -1 } with
    history := m.history ++
      if page.present then [PageEvent.left id (m.frameBytes cfg page.frame)] else [] }

theorem dropPage_keeps {id : PageId} {page : PageEntry} (hpage : m.page? id = some page)
    (hstill : page.present = true → m.frameBytes cfg page.frame = m.slot store id page)
    (hm : m.KeepsPages cfg store) : (m.dropPage cfg id page).KeepsPages cfg store := by
  have hlast : lastBytes cfg (m.dropPage cfg id page).history id = m.slot store id page := by
    simp only [dropPage]
    cases hpresent : page.present with
    | true =>
        rw [if_pos rfl, lastBytes_append, PageEvent.contents, if_pos rfl]
        exact hstill hpresent
    | false =>
        rw [if_neg (by decide), List.append_nil]
        exact (hm.kept id page hpage hpresent).symm
  have hother : ∀ id', id' ≠ id → lastBytes cfg (m.dropPage cfg id page).history id' =
      lastBytes cfg m.history id' := by
    intro id' hne
    simp only [dropPage]
    split
    · rw [lastBytes_append, PageEvent.contents, if_neg (Ne.symm hne)]
    · rw [List.append_nil]
  refine ⟨?_, fun id' page' hpage' hpresent' => ?_⟩
  · simp only [dropPage]
    split
    · exact KeepsPages.loads_append hm.loads nofun
    · rw [List.append_nil]
      exact hm.loads
  · have hlookup : (m.dropPage cfg id page).page? id' = _ := page?_modifyPage id id' _
    rw [hlookup] at hpage'
    by_cases heq : id = id'
    · subst heq
      rw [if_pos rfl, hpage, Option.map_some, Option.some.injEq] at hpage'
      rw [hlast, ← hpage']
      rfl
    · rw [if_neg heq] at hpage'
      rw [hother id' (Ne.symm heq)]
      exact hm.kept id' page' hpage' hpresent'

theorem suspendEntry_eq {pid : Word} {k : ℕ} {id : PageId}
    (h : m.suspendEntry cfg host store pid k id = some m') (hm : m.Stored cfg store) :
    ∃ page, m.page? id = some page ∧ (m.dropPage cfg id page).unassignProcessFrames k = some m' := by
  unfold suspendEntry at h
  split at h
  · cases h
  rename_i page hpage
  refine ⟨page, hpage, ?_⟩
  have hmodified := hm.unmodified id page hpage
  simp only [hmodified, Bool.false_eq_true, and_false, if_false] at h
  exact h

theorem suspendEntry_suspending {m₀ : Memory Swap} {pid : Word} {k : ℕ} {id : PageId}
    (h : m.suspendEntry cfg host store pid k id = some m') (hstill : m₀.Still cfg store id)
    (hm : Suspending cfg store m₀ m) : Suspending cfg store m₀ m' := by
  obtain ⟨page, hpage, hrelease⟩ := suspendEntry_eq h hm.stored
  obtain ⟨bitmap, processes, rfl, hprocesses⟩ := unassignProcessFrames_eq hrelease
  have hsame : page.present = true → m.frameBytes cfg page.frame = m.slot store id page := by
    intro hpresent
    obtain ⟨page₀, hpage₀, hnumber, heq⟩ := hm.pages id page hpage
    obtain rfl := heq hpresent
    rw [hm.slot_eq id rfl, ← hstill page hpage₀ hpresent, frameBytes, frameBytes, hm.memory]
  have hkeeps := dropPage_keeps hpage hsame hm.stored.keeps
  have hlookup : ∀ id' page', (m.dropPage cfg id page).page? id' = some page' →
      ∃ old, m.page? id' = some old ∧ old.page = page'.page ∧ old.modified = page'.modified ∧
        (page'.present = true → page' = old) := by
    intro id' page' hpage'
    have hafter : (m.dropPage cfg id page).page? id' = _ := page?_modifyPage id id' _
    rw [hafter] at hpage'
    split at hpage'
    · obtain ⟨old, hold, rfl⟩ := Option.map_eq_some_iff.1 hpage'
      exact ⟨old, hold, rfl, rfl, nofun⟩
    · exact ⟨page', hpage', rfl, rfl, fun _ => rfl⟩
  refine ⟨hm.memory, hm.swap, hm.owners, fun id' page' hpage' => ?_, ?_, ?_, ?_, ?_, ?_⟩
  · obtain ⟨old, hold, hnumber, -, heq⟩ := hlookup id' page' hpage'
    obtain ⟨page₀, hpage₀, hnumber₀, heq₀⟩ := hm.pages id' old hold
    refine ⟨page₀, hpage₀, hnumber₀.trans hnumber, fun hpresent => ?_⟩
    have heq' := heq hpresent
    exact heq' ▸ heq₀ (heq' ▸ hpresent)
  · intro id' page' hpage'
    obtain ⟨old, hold, -, hmodified, -⟩ := hlookup id' page' hpage'
    exact hmodified ▸ hm.stored.unmodified id' old hold
  · intro process hmem hfree
    rcases hprocesses process hmem with hold | hnone
    · exact hm.stored.full process hold hfree
    · exact hnone
  · exact hm.stored.owners.trans (List.length_modify ..).symm
  · intro event hmem
    have hevent : event ∈ m.history ∨ event.page = id := by
      simp only [dropPage] at hmem
      split at hmem <;> simp_all [PageEvent.page]
      grind
    have hlength : (m.dropPage cfg id page).level2Tables.length = m.level2Tables.length :=
      List.length_modify ..
    show event.page.table < (m.dropPage cfg id page).level2Tables.length
    rw [hlength]
    rcases hevent with hold | rfl
    · exact hm.stored.events event hold
    · simp only [page?, Option.bind_eq_bind, Option.bind_eq_some_iff] at hpage
      obtain ⟨entries, htable, -⟩ := hpage
      exact (List.getElem?_eq_some_iff.1 htable).1
  · exact ⟨hkeeps.loads, hkeeps.kept⟩

theorem suspendTable_suspending {m₀ : Memory Swap} {pid : Word} {k level1Entry : ℕ}
    (h : m.suspendTable cfg host store pid k level1Entry = some m')
    (hstill : ∀ table ∈ host.deref level1Entry, ∀ j, m₀.Still cfg store ⟨table, j⟩)
    (hm : Suspending cfg store m₀ m) : Suspending cfg store m₀ m' := by
  unfold suspendTable at h
  repeat' split at h
  · cases h
  · cases h
  · rename_i table hderef _ entries htable
    exact Machine.foldlM_invariant
      (fun _ j _ hm h => suspendEntry_suspending h (hstill table hderef j) hm) hm h

/-- Nothing has to be moved: what a suspension takes out of a frame is in the swap already, and
the frame given to a page has what the swap has. -/
def NothingMoves (cfg : MemoryConfig) (host : Host) (store : SwapStore Swap)
    (action : MemoryAction) (m : Memory Swap) : Prop :=
  match action with
  | .processSuspend _ pt1Index _ =>
      ∀ level1Entry ∈ (m.level1Tables[pt1Index.toNat]?).getD [],
        ∀ table ∈ host.deref level1Entry, ∀ j < ((m.level2Tables[table]?).getD []).length,
          m.Still cfg store ⟨table, j⟩
  | .accessLvl2Table _ pt2Index entryIndex _ found =>
      ∀ page ∈ m.page? ⟨pt2Index.toNat, entryIndex.toNat⟩, page.present = false →
        ∀ k ∈ found, ∀ process ∈ m.processesFrames[k]?, hasFreeFrame cfg process = true →
          ∀ free ∈ findFirstFreeFrame process, m.frameBytes cfg free.1.frame =
            m.slot store ⟨pt2Index.toNat, entryIndex.toNat⟩ page
  | _ => True

instance (action : MemoryAction) : Decidable (m.NothingMoves cfg host store action) := by
  unfold NothingMoves
  split <;> infer_instance

theorem processSuspend_stored {pid pt1Index processFramesIndex : Word}
    {answer : Option MemoryAnswer}
    (h : m.processSuspend cfg host store pid pt1Index processFramesIndex = some (m', answer))
    (hrest : m.NothingMoves cfg host store (.processSuspend pid pt1Index processFramesIndex))
    (hm : m.Stored cfg store) : m'.Stored cfg store := by
  unfold processSuspend at h
  repeat' split at h
  · cases h; exact hm
  · cases h
  rename_i entries hentries
  obtain ⟨suspended, hsuspended, heq⟩ := Option.map_eq_some_iff.1 h
  cases heq
  have hstill : ∀ level1Entry ∈ entries, ∀ table ∈ host.deref level1Entry, ∀ j,
      m.Still cfg store ⟨table, j⟩ := by
    intro level1Entry hmem table htable j page hpage
    refine hrest level1Entry (by simpa [hentries] using hmem) table htable j ?_ page hpage
    simp only [Option.mem_def, page?, Option.bind_eq_bind, Option.bind_eq_some_iff] at hpage
    obtain ⟨pages, hpages, hentry⟩ := hpage
    rw [hpages, Option.getD_some]
    exact (List.getElem?_eq_some_iff.1 hentry).1
  -- the tables the loop visits are those of the guard
  have hstep : ∀ i ∈ entries, ∀ m₁ m₂, Suspending cfg store m m₁ →
      m₁.suspendTable cfg host store pid processFramesIndex.toNat i = some m₂ →
        Suspending cfg store m m₂ :=
    fun i hi _ _ hm₁ h₂ => suspendTable_suspending h₂ (hstill i hi) hm₁
  exact (Machine.foldlM_invariant_of_mem hstep (.refl hm) hsuspended).stored

/-! ## Page faults -/

/-- Where the frame list has no page the clock crashes, or has no time to turn. -/
theorem twoClockTurns_eq {k : ℕ} {checkModified : Bool} {new : PageId} {newPage : PageEntry}
    {pid : Word} {frame : ℤ} {process : ProcessFrame} (hprocess : m.processesFrames[k]? = some process)
    (hnone : ∀ entry ∈ process.frames, entry.pageData = none)
    (h : m.twoClockTurns cfg host store k checkModified new newPage pid = some (m', frame)) :
    m' = m ∧ frame = -1 := by
  have hvisit : ∀ j, m.clockVisit cfg host store k checkModified new newPage pid j = none := by
    intro j
    simp only [clockVisit, hprocess]
    cases hentry : process.frames[process.clockHand]? with
    | none => rfl
    | some entry => simp [hnone entry (List.mem_of_getElem? hentry)]
  unfold twoClockTurns at h
  cases hturns : List.replicate cfg.framesPerProcess 0 ++ List.replicate cfg.framesPerProcess 1 with
  | nil =>
      rw [hturns] at h
      cases h
      exact ⟨rfl, rfl⟩
  | cons j rest =>
      rw [hturns] at h
      simp [clockTurns, hvisit] at h

theorem replaceAlgorithm_eq {k : ℕ} {new : PageId} {newPage : PageEntry} {pid : Word} {frame : ℤ}
    {process : ProcessFrame} (hprocess : m.processesFrames[k]? = some process)
    (hnone : ∀ entry ∈ process.frames, entry.pageData = none)
    (h : m.replaceAlgorithm cfg host store k new newPage pid = some (m', frame)) :
    m' = m ∧ frame = -1 := by
  unfold replaceAlgorithm at h
  split at h
  · exact twoClockTurns_eq hprocess hnone h
  · split at h
    · cases h
    rename_i m₁ frame₁ hfirst
    obtain ⟨rfl, rfl⟩ := twoClockTurns_eq hprocess hnone hfirst
    rw [if_neg (by decide)] at h
    exact twoClockTurns_eq hprocess hnone h

/-- A page fault is served by the first frame of the list, or not at all: no page is ever
replaced. -/
theorem getFrameNumber_cases {id : PageId} {pid : Word} {found : Option ℕ} {frame : ℤ}
    (h : m.getFrameNumber cfg host store id pid found = some (m', frame))
    (hfull : ∀ process ∈ m.processesFrames, hasFreeFrame cfg process = false →
      ∀ entry ∈ process.frames, entry.pageData = none) :
    (∃ page, m.page? id = some page ∧ page.present = true ∧ m' = m ∧ frame = page.frame) ∨
    (∃ page, m.page? id = some page ∧ page.present = false ∧ m' = m ∧ frame = -1) ∨
    ∃ page k process free i, m.page? id = some page ∧ page.present = false ∧ found = some k ∧
      m.processesFrames[k]? = some process ∧ hasFreeFrame cfg process = true ∧
      findFirstFreeFrame process = some (free, i) ∧ m' = m.assignPage cfg k i free.frame id ∧
      frame = free.frame := by
  unfold getFrameNumber at h
  split at h
  · cases h
  rename_i page hpage
  split at h
  · rename_i hpresent
    cases h
    exact .inl ⟨page, hpage, hpresent, rfl, rfl⟩
  rename_i hpresent
  have habsent : page.present = false := by simpa using hpresent
  split at h
  · cases h
  rename_i k
  split at h
  · cases h
  rename_i process hprocess
  split at h
  · rename_i hfree
    split at h
    · cases h
      exact .inr (.inl ⟨page, hpage, habsent, rfl, rfl⟩)
    · rename_i free i hfirst
      cases h
      exact .inr (.inr ⟨page, k, process, free, i, hpage, habsent, rfl, hprocess, hfree, hfirst,
        rfl, rfl⟩)
  · rename_i hfree
    obtain ⟨rfl, rfl⟩ := replaceAlgorithm_eq hprocess
      (hfull process (List.mem_of_getElem? hprocess) (by simpa using hfree)) h
    exact .inr (.inl ⟨page, hpage, habsent, rfl, rfl⟩)

theorem assignPage_stored {id : PageId} {page : PageEntry} {k i : ℕ} {process : ProcessFrame}
    {frame : ℤ} (hpage : m.page? id = some page) (habsent : page.present = false)
    (hprocess : m.processesFrames[k]? = some process) (hfree : hasFreeFrame cfg process = true)
    (hbytes : m.frameBytes cfg frame = m.slot store id page) (hm : m.Stored cfg store) :
    (m.assignPage cfg k i frame id).Stored cfg store := by
  have hlookup : ∀ id', (m.assignPage cfg k i frame id).page? id' =
      if id = id' then (m.page? id').map fun page => { page with present := true, frame := frame }
      else m.page? id' :=
    fun id' => page?_modifyPage id id' _
  have hhistory : (m.assignPage cfg k i frame id).history =
      m.history ++ [.loaded id (m.frameBytes cfg frame)] := rfl
  refine ⟨fun id' page' hpage' => ?_, full_modifyFrame hprocess hfree hm.full,
    hm.owners.trans (List.length_modify ..).symm, fun event hmem => ?_, ?_, ?_⟩
  · rw [hlookup] at hpage'
    split at hpage'
    · obtain ⟨old, hold, rfl⟩ := Option.map_eq_some_iff.1 hpage'
      exact hm.unmodified id' old hold
    · exact hm.unmodified id' page' hpage'
  · have hlength : (m.assignPage cfg k i frame id).level2Tables.length = m.level2Tables.length :=
      List.length_modify ..
    rw [hlength]
    rw [hhistory, List.mem_append, List.mem_singleton] at hmem
    rcases hmem with hold | rfl
    · exact hm.events event hold
    · simp only [page?, Option.bind_eq_bind, Option.bind_eq_some_iff] at hpage
      obtain ⟨entries, htable, -⟩ := hpage
      exact (List.getElem?_eq_some_iff.1 htable).1
  · rw [hhistory]
    refine KeepsPages.loads_append hm.keeps.loads fun id' bytes heq => ?_
    cases heq
    rw [hbytes, hm.keeps.kept id page hpage habsent]
  · intro id' page' hpage' hpresent'
    rw [hlookup] at hpage'
    split at hpage'
    · obtain ⟨old, hold, rfl⟩ := Option.map_eq_some_iff.1 hpage'
      cases hpresent'
    · rw [hhistory, lastBytes_append]
      exact hm.keeps.kept id' page' hpage' hpresent'

theorem getFrameNumber_stored {pid pt2Index entryIndex processFramesIndex : Word}
    {found : Option ℕ} {frame : ℤ}
    (h : m.getFrameNumber cfg host store ⟨pt2Index.toNat, entryIndex.toNat⟩ pid found =
      some (m', frame))
    (hrest : m.NothingMoves cfg host store
      (.accessLvl2Table pid pt2Index entryIndex processFramesIndex found))
    (hm : m.Stored cfg store) : m'.Stored cfg store := by
  rcases getFrameNumber_cases h hm.full with ⟨page, -, -, rfl, -⟩ | ⟨page, -, -, rfl, -⟩ |
    ⟨page, k, process, free, i, hpage, habsent, hfound, hprocess, hfree, hfirst, rfl, -⟩
  · exact hm
  · exact hm
  · exact assignPage_stored hpage habsent hprocess hfree
      (hrest page hpage habsent k hfound process hprocess hfree (free, i) hfirst) hm

/-! ## Creation -/

/-- `assign_process_frames` makes lists without pages. -/
theorem assignFrames_pageData (n : ℕ) (bitmap : List Bool) (frames : List FrameEntry)
    (hframes : ∀ entry ∈ frames, entry.pageData = none) :
    ∀ entry ∈ (assignFrames cfg n bitmap frames).2, entry.pageData = none := by
  induction n generalizing bitmap frames with
  | zero => exact hframes
  | succ n ih =>
      unfold assignFrames
      split
      · refine ih _ _ fun entry hmem => ?_
        rcases List.mem_append.1 hmem with hold | hnew
        · exact hframes entry hold
        · rw [List.mem_singleton.1 hnew]
      · exact ih _ _ hframes

theorem processNew_stored (hstore : store.Faithful cfg) {pid processSize : Word}
    (hfresh : pid ∉ m.owners) (hm : m.Stored cfg store) :
    (m.processNew cfg store pid processSize).1.Stored cfg store := by
  unfold processNew
  split
  · exact hm
  set n := level2PagesRequired cfg processSize with hn
  have hinit : (addLevel2Tables cfg pid n [] m).2 = _ := addLevel2Tables_eq pid n []
  obtain ⟨m', hm', hmemory, htables, howners, hhistory, hprocesses, hswap⟩ :
      ∃ m', m' = { (m.pageTableInit cfg pid processSize).assignProcessFrames cfg with
          swap := store.createSwap pid processSize m.swap } ∧ m'.memory = m.memory ∧
        m'.level2Tables = m.level2Tables ++ List.replicate n (newLevel2Table cfg) ∧
        m'.owners = m.owners ++ List.replicate n pid ∧ m'.history = m.history ∧
        m'.processesFrames = m.processesFrames ++
          [⟨(assignFrames cfg cfg.framesPerProcess m.framesBitmap []).2, 0⟩] ∧
        m'.swap = store.createSwap pid processSize m.swap :=
    ⟨_, rfl, by simp [assignProcessFrames, pageTableInit, ← hn, hinit],
      by simp [assignProcessFrames, pageTableInit, ← hn, hinit],
      by simp [assignProcessFrames, pageTableInit, ← hn, hinit],
      by simp [assignProcessFrames, pageTableInit, ← hn, hinit],
      by simp [assignProcessFrames, pageTableInit, ← hn, hinit], rfl⟩
  have hnew : ∀ id page, m'.page? id = some page → m.page? id = some page ∨
      (m.level2Tables.length ≤ id.table ∧ m'.owners.getD id.table 0 = pid ∧
        page.present = false ∧ page.modified = false) := by
    intro id page hpage
    rcases page?_append htables hpage with hold | ⟨hge, hlt, entries, hentries, hmem⟩
    · exact .inl hold
    · obtain rfl := (List.mem_replicate.1 hentries).2
      obtain ⟨hpresent, hmodified⟩ := mem_newLevel2Table hmem
      refine .inr ⟨hge, ?_, hpresent, hmodified⟩
      rw [List.length_replicate] at hlt
      have hlen := hm.owners
      rw [howners, List.getD_eq_getElem?_getD, List.getElem?_append_right (by omega),
        List.getElem?_replicate, if_pos (by omega), Option.getD_some]
  have hswapEq : ((m.pageTableInit cfg pid processSize).assignProcessFrames cfg).swap = m.swap := by
    simp [assignProcessFrames, pageTableInit, ← hn, hinit]
  simp only [hswapEq]
  rw [← hm']
  refine ⟨fun id page hpage => ?_, fun process hmem hfree => ?_, ?_, fun event hmem => ?_, ?_,
    fun id page hpage hpresent => ?_⟩
  · rcases hnew id page hpage with hold | ⟨-, -, -, hmodified⟩
    · exact hm.unmodified id page hold
    · exact hmodified
  · rw [hprocesses, List.mem_append, List.mem_singleton] at hmem
    rcases hmem with hold | rfl
    · exact hm.full process hold hfree
    · exact assignFrames_pageData _ _ [] (by simp)
  · rw [howners, htables, List.length_append, List.length_append, hm.owners]
    simp
  · rw [hhistory] at hmem
    have := hm.events event hmem
    rw [htables, List.length_append]
    omega
  · rw [hhistory]
    exact hm.keeps.loads
  · rw [slot, hswap, hhistory]
    rcases hnew id page hpage with hold | ⟨hge, howner, -, -⟩
    · have hlt : id.table < m.owners.length := by
        simp only [page?, Option.bind_eq_bind, Option.bind_eq_some_iff] at hold
        obtain ⟨entries, htable, -⟩ := hold
        rw [hm.owners]
        exact (List.getElem?_eq_some_iff.1 htable).1
      have howner : m'.owners.getD id.table 0 = m.owners.getD id.table 0 := by
        rw [howners, List.getD_eq_getElem?_getD, List.getElem?_append_left hlt,
          List.getD_eq_getElem?_getD]
      have hne : m.owners.getD id.table 0 ≠ pid := by
        intro heq
        rw [List.getD_eq_getElem?_getD, List.getElem?_eq_getElem hlt, Option.getD_some] at heq
        exact hfresh (heq ▸ List.getElem_mem hlt)
      rw [howner, hstore.get_create_of_ne _ _ _ _ _ hne]
      exact hm.keeps.kept id page hold hpresent
    · rw [howner, hstore.get_create, lastBytes_of_forall_ne]
      intro event hmem heq
      have := hm.events event hmem
      rw [heq] at this
      omega

/-! ## Runs -/

/-- The address range of the four bytes lies in a frame that has a resident page. -/
def InResidentFrame (cfg : MemoryConfig) (m : Memory Swap) (address : Word) : Prop :=
  ∃ entries ∈ m.level2Tables, ∃ page ∈ entries, page.present = true ∧
    ∀ byte ∈ touched address, page.frame.toNat * cfg.pageSize ≤ byte ∧
      byte < (page.frame.toNat + 1) * cfg.pageSize

instance (address : Word) : Decidable (m.InResidentFrame cfg address) := by
  unfold InResidentFrame
  infer_instance

/-- The requests of a run without exits: distinct processes have distinct pids, and what is read
and written is in resident frames. -/
def Requested (cfg : MemoryConfig) (action : MemoryAction) (m : Memory Swap) : Prop :=
  match action with
  | .processNew pid _ => pid ∉ m.owners
  | .processExit .. => False
  | .memoryRead address | .memoryWrite address _ => m.InResidentFrame cfg address
  | _ => True

instance (action : MemoryAction) : Decidable (m.Requested cfg action) := by
  unfold Requested
  split <;> infer_instance

theorem handle_stored (hstore : store.Faithful cfg) {action : MemoryAction}
    {answer : Option MemoryAnswer} (h : m.handle cfg host store action = some (m', answer))
    (hrequested : m.Requested cfg action) (hrest : m.NothingMoves cfg host store action)
    (hm : m.Stored cfg store) : m'.Stored cfg store := by
  refine handle_elim h ?create ?suspend ?exit ?access ?write hm
  case create =>
    rintro pid processSize rfl
    exact processNew_stored hstore hrequested hm
  case suspend =>
    rintro pid pt1Index processFramesIndex m' rfl h
    exact processSuspend_stored h hrest hm
  case exit =>
    rintro pid pt1Index processFramesIndex m' rfl
    exact hrequested.elim
  case access =>
    rintro pid pt2Index entryIndex processFramesIndex found m' frame rfl hframe
    exact getFrameNumber_stored hframe hrest hm
  case write =>
    intro memory _
    exact ⟨hm.unmodified, hm.full, hm.owners, hm.events, hm.keeps.loads, hm.keeps.kept⟩

theorem start_stored (swap : Swap) : (start cfg swap).Stored cfg store := by
  refine ⟨nofun, nofun, rfl, nofun, fun before id bytes after h => ?_, nofun⟩
  have hempty : [] = before ++ .loaded id bytes :: after := h
  simp at hempty

/-- In every run in which nothing would have to be moved to or from the swap, every page comes
back with the bytes it had, and no page that is not resident has lost any. -/
theorem keepsPages (hstore : store.Faithful cfg) {swap : Swap}
    (hm : (memoryModule cfg host store swap).ReachableBy
      (fun action m => m.Requested cfg action ∧ m.NothingMoves cfg host store action) m) :
    m.KeepsPages cfg store := by
  have hstored : m.Stored cfg store := by
    refine hm.invariant (start_stored swap) fun action m m' hguard hm h => ?_
    obtain ⟨⟨m₁, answer⟩, hhandle, rfl⟩ := Option.map_eq_some_iff.1 h
    exact handle_stored hstore hhandle hguard.1 hguard.2 hm
  exact hstored.keeps

/-- A process gets a frame for a page, is suspended without having written, and asks again. -/
theorem keepsPages_small : ∃ m, (memoryModuleSmall 4).ReachableBy
    (fun action m => m.Requested (.small 4) action ∧
      m.NothingMoves (.small 4) .direct (pageStore (.small 4)) action) m ∧
    m.history = [.loaded ⟨0, 1⟩ [0, 0, 0, 0, 0, 0, 0, 0], .left ⟨0, 1⟩ [0, 0, 0, 0, 0, 0, 0, 0]] ∧
    m.KeepsPages (.small 4) (pageStore (.small 4)) := by
  obtain ⟨m, hm, htest⟩ := Machine.exists_reachableBy_of_run (memoryModuleSmall 4)
    (fun action m => m.Requested (.small 4) action ∧
      m.NothingMoves (.small 4) .direct (pageStore (.small 4)) action)
    [.processNew 1 16, .accessLvl2Table 1 0 1 0 (some 0), .processSuspend 1 0 0,
      .accessLvl2Table 1 0 1 0 (some 0)]
    (fun m => m.history =
      [.loaded ⟨0, 1⟩ [0, 0, 0, 0, 0, 0, 0, 0], .left ⟨0, 1⟩ [0, 0, 0, 0, 0, 0, 0, 0]])
    (by decide +kernel)
  exact ⟨m, hm, of_decide_eq_true htest, keepsPages (pageStore_faithful _) hm⟩

/-- A page is written and its process suspended: the swap has zeros, and the frame, with what
was written, goes to a page of another process. -/
theorem not_keepsPages : ∃ m, (memoryModuleSmall 4).ReachableBy
    (fun action m => m.Requested (.small 4) action) m ∧
    (m.history = [.loaded ⟨0, 1⟩ [0, 0, 0, 0, 0, 0, 0, 0], .left ⟨0, 1⟩ [0, 0, 0, 0, 7, 0, 0, 0],
        .loaded ⟨1, 0⟩ [0, 0, 0, 0, 7, 0, 0, 0]] ∧
      m.page? ⟨0, 1⟩ = some ⟨-1, false, false, false, 1⟩ ∧ m.owners = [1, 2] ∧
      m.swap 1 1 = [0, 0, 0, 0, 0, 0, 0, 0]) ∧
    ¬ m.KeepsPages (.small 4) (pageStore (.small 4)) := by
  obtain ⟨m, hm, htest⟩ := Machine.exists_reachableBy_of_run (memoryModuleSmall 4)
    (fun action m => m.Requested (.small 4) action)
    [.processNew 1 16, .accessLvl2Table 1 0 1 0 (some 0), .memoryWrite 4 7, .processSuspend 1 0 0,
      .processNew 2 16, .accessLvl2Table 2 1 0 1 (some 1)]
    (fun m => m.history =
        [.loaded ⟨0, 1⟩ [0, 0, 0, 0, 0, 0, 0, 0], .left ⟨0, 1⟩ [0, 0, 0, 0, 7, 0, 0, 0],
          .loaded ⟨1, 0⟩ [0, 0, 0, 0, 7, 0, 0, 0]] ∧
      m.page? ⟨0, 1⟩ = some ⟨-1, false, false, false, 1⟩ ∧ m.owners = [1, 2] ∧
      m.swap 1 1 = [0, 0, 0, 0, 0, 0, 0, 0])
    (by decide +kernel)
  have hat := of_decide_eq_true htest
  refine ⟨m, hm, hat, fun hkeeps => ?_⟩
  obtain ⟨hhistory, hpage, howners, hswap⟩ := hat
  have hkept := hkeeps.kept ⟨0, 1⟩ _ hpage rfl
  simp only [slot, howners, hhistory] at hkept
  rw [show (pageStore (.small 4)).swapGetPage ([1, 2].getD 0 0) 1 m.swap = m.swap 1 1 from rfl,
    hswap] at hkept
  revert hkept
  decide

end Memory
end SistemasOperativos
