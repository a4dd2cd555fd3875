import SistemasOperativos.Proofs.Isolation

/-!
# Page tables and frame lists

Where a page is resident is written twice: in its page entry, and in the entry of its process's
frame list that has its frame.  `find_first_free_frame` tests for a frame where it should test
for a page, so a process short of frames gets its first frame for every page; as long as that
entry is empty whenever it is taken, the two sides agree.
-/

open Tally

namespace SistemasOperativos

namespace Memory

variable {Swap : Type} {cfg : MemoryConfig} {host : Host} {store : SwapStore Swap}
  {m m' : Memory Swap} {k : ℕ}

/-! ## The two sides -/

/-- The page is one of process `i`: the level-1 table of the process names its table. -/
def Owns (m : Memory Swap) (i : ℕ) (id : PageId) : Prop :=
  id.table ∈ (m.level1Tables[i]?).getD []

instance (i : ℕ) (id : PageId) : Decidable (m.Owns i id) :=
  inferInstanceAs (Decidable (_ ∈ _))

/-- The page entry says that the page is in the frame. -/
def InFrame (m : Memory Swap) (id : PageId) (frame : ℤ) : Prop :=
  ∃ page, m.page? id = some page ∧ page.present = true ∧ page.frame = frame

/-- The entry of frame list `i` that has the frame has the page. -/
def HeldBy (m : Memory Swap) (i : ℕ) (frame : ℤ) (id : PageId) : Prop :=
  ∃ process, m.processesFrames[i]? = some process ∧
    ∃ entry ∈ process.frames, entry.frame = frame ∧ entry.pageData = some id

/-- The page is not resident, if it exists. -/
def Absent (m : Memory Swap) (id : PageId) : Prop :=
  ∀ page, m.page? id = some page → page.present = false

/-- No entry of frame list `i` has a page. -/
def Emptied (m : Memory Swap) (i : ℕ) : Prop :=
  ∀ process, m.processesFrames[i]? = some process → ∀ entry ∈ process.frames, entry.pageData = none

theorem Absent.not_inFrame {id : PageId} (h : m.Absent id) (frame : ℤ) : ¬ m.InFrame id frame := by
  rintro ⟨page, hpage, hpresent, -⟩
  simp [h page hpage] at hpresent

theorem Emptied.not_heldBy {i : ℕ} (h : m.Emptied i) (frame : ℤ) (id : PageId) :
    ¬ m.HeldBy i frame id := by
  rintro ⟨process, hprocess, entry, hentry, -, hdata⟩
  simp [h process hprocess entry hentry] at hdata

/-! ## Suspension -/

/-- What the release of frame list `k` and the retirement of the pages in `gone` leave alone. -/
structure Retires (k : ℕ) (gone : PageId → Prop) (m m' : Memory Swap) : Prop where
  level1Tables : m'.level1Tables = m.level1Tables
  lengths : m'.level2Tables.map List.length = m.level2Tables.map List.length
  pages : ∀ id, ¬ gone id → m'.page? id = m.page? id
  absent : ∀ id, m.Absent id → m'.Absent id
  count : m'.processesFrames.length = m.processesFrames.length
  lists : ∀ j, j ≠ k → m'.processesFrames[j]? = m.processesFrames[j]?
  list : m' = m ∨ m'.Emptied k
  entries : ∀ process ∈ m'.processesFrames, process ∈ m.processesFrames ∨
    ∀ entry ∈ process.frames, entry = ⟨-1, none⟩

variable {gone : PageId → Prop}

theorem Retires.refl : Retires k gone m m :=
  ⟨rfl, rfl, fun _ _ => rfl, fun _ h => h, rfl, fun _ _ => rfl, .inl rfl, fun _ h => .inl h⟩

theorem Retires.trans {m'' : Memory Swap} (h : Retires k gone m m') (h' : Retires k gone m' m'') :
    Retires k gone m m'' where
  level1Tables := h'.level1Tables.trans h.level1Tables
  lengths := h'.lengths.trans h.lengths
  pages id hid := (h'.pages id hid).trans (h.pages id hid)
  absent id hid := h'.absent id (h.absent id hid)
  count := h'.count.trans h.count
  lists j hj := (h'.lists j hj).trans (h.lists j hj)
  list := by
    rcases h'.list with rfl | hemptied
    · exact h.list
    · exact .inr hemptied
  entries process hprocess := by
    rcases h'.entries process hprocess with hold | hnew
    · exact h.entries process hold
    · exact .inr hnew

theorem Retires.mono {gone' : PageId → Prop} (h : Retires k gone m m')
    (hgone : ∀ id, gone id → gone' id) : Retires k gone' m m' :=
  ⟨h.level1Tables, h.lengths, fun id hid => h.pages id fun hg => hid (hgone id hg), h.absent,
    h.count, h.lists, h.list, h.entries⟩

/-- A change of one page that makes no page resident. -/
structure Touches (id : PageId) (m m' : Memory Swap) : Prop where
  level1Tables : m'.level1Tables = m.level1Tables
  lengths : m'.level2Tables.map List.length = m.level2Tables.map List.length
  pages : ∀ id', id' ≠ id → m'.page? id' = m.page? id'
  absent : ∀ id', m.Absent id' → m'.Absent id'
  processesFrames : m'.processesFrames = m.processesFrames

theorem Touches.refl {id : PageId} : Touches id m m :=
  ⟨rfl, rfl, fun _ _ => rfl, fun _ h => h, rfl⟩

theorem Touches.trans {id : PageId} {m'' : Memory Swap} (h : Touches id m m')
    (h' : Touches id m' m'') : Touches id m m'' :=
  ⟨h'.level1Tables.trans h.level1Tables, h'.lengths.trans h.lengths,
    fun id' hid => (h'.pages id' hid).trans (h.pages id' hid),
    fun id' hid => h'.absent id' (h.absent id' hid), h'.processesFrames.trans h.processesFrames⟩

theorem Touches.withHistory {id : PageId} (h : Touches id m m') (history : List PageEvent) :
    Touches id m { m' with history := history } :=
  ⟨h.level1Tables, h.lengths, h.pages, h.absent, h.processesFrames⟩

theorem saveSwap_touches {frame : ℤ} {page : ℕ} {pid : Word} (id : PageId)
    (h : m.saveSwap cfg host store frame page pid = some m') : Touches id m m' := by
  unfold saveSwap at h
  split at h <;> cases h
  exact ⟨rfl, rfl, fun _ _ => rfl, fun _ h => h, rfl⟩

theorem modifyPage_touches (m : Memory Swap) (id : PageId) {f : PageEntry → PageEntry}
    (hf : ∀ page, page.present = false → (f page).present = false) :
    Touches id m (m.modifyPage id f) where
  level1Tables := rfl
  lengths := map_modify_of_eq (g := List.length) (fun _ => List.length_modify ..) _ _
  pages id' hid := by rw [page?_modifyPage, if_neg (Ne.symm hid)]
  absent id' hid page hpage := by
    rw [page?_modifyPage] at hpage
    split at hpage
    · obtain ⟨old, hold, rfl⟩ := Option.map_eq_some_iff.1 hpage
      exact hf old (hid old hold)
    · exact hid page hpage
  processesFrames := rfl

/-- The release of a frame list empties it, and leaves the pages alone. -/
theorem unassignProcessFrames_retires (h : m.unassignProcessFrames k = some m') :
    Retires k (fun _ => False) m m' ∧ m'.Emptied k := by
  unfold unassignProcessFrames at h
  split at h <;> cases h
  rename_i process hprocess
  have hlt := (List.getElem?_eq_some_iff.1 hprocess).1
  have hemptied : ∀ entry ∈ process.frames.map fun _ => (⟨-1, none⟩ : FrameEntry),
      entry = ⟨-1, none⟩ := by
    intro entry hentry
    obtain ⟨-, -, rfl⟩ := List.mem_map.1 hentry
    rfl
  have hlist : Emptied { m with
      framesBitmap := process.frames.foldl (fun bitmap entry =>
        frameClearAssigned bitmap entry.frame) m.framesBitmap
      processesFrames := m.processesFrames.set k
        { process with frames := process.frames.map fun _ => ⟨-1, none⟩ } } k := by
    intro process' hprocess' entry hentry
    simp only [List.getElem?_set_self hlt, Option.some.injEq] at hprocess'
    subst hprocess'
    rw [hemptied entry hentry]
  refine ⟨⟨rfl, rfl, fun _ _ => rfl, fun _ h => h, by simp, ?_, .inr hlist, ?_⟩, hlist⟩
  · intro j hj
    exact List.getElem?_set_ne (Ne.symm hj)
  · intro process' hprocess'
    rcases List.mem_or_eq_of_mem_set hprocess' with hold | rfl
    · exact .inl hold
    · exact .inr hemptied

theorem Touches.unassigned {id : PageId} {m'' : Memory Swap} (h : Touches id m m')
    (hrelease : m'.unassignProcessFrames k = some m'') :
    Retires k (· = id) m m'' ∧ ∀ id', m'.Absent id' → m''.Absent id' := by
  obtain ⟨hretires, hemptied⟩ := unassignProcessFrames_retires hrelease
  refine ⟨⟨hretires.level1Tables.trans h.level1Tables, hretires.lengths.trans h.lengths,
    fun id' hid => (hretires.pages id' not_false).trans (h.pages id' hid),
    fun id' hid => hretires.absent id' (h.absent id' hid), ?_, ?_, .inr hemptied, ?_⟩,
    hretires.absent⟩
  · rw [hretires.count, h.processesFrames]
  · intro j hj
    rw [hretires.lists j hj, h.processesFrames]
  · intro process hprocess
    rw [← h.processesFrames]
    exact hretires.entries process hprocess

/-- The iteration of `process_suspend` on a page retires that page. -/
theorem suspendEntry_retires {pid : Word} {id : PageId}
    (h : m.suspendEntry cfg host store pid k id = some m') :
    Retires k (· = id) m m' ∧ m'.Absent id := by
  unfold suspendEntry at h
  split at h
  · cases h
  rename_i page hpage
  simp only at h
  split at h
  · cases h
  rename_i saved hsaved
  have hfirst : Touches id m saved := by
    split at hsaved
    · obtain ⟨written, hwritten, rfl⟩ := Option.map_eq_some_iff.1 hsaved
      exact (saveSwap_touches id hwritten).trans
        (modifyPage_touches written id fun _ hpresent => hpresent)
    · cases hsaved
      exact .refl
  have hsecond := modifyPage_touches saved id
    (f := fun page => { page with present := false, frame := -1 }) fun _ _ => rfl
  obtain ⟨hretires, habsent⟩ := ((hfirst.trans hsecond).withHistory _).unassigned h
  refine ⟨hretires, habsent id ?_⟩
  intro page' hpage'
  have hlookup := page?_modifyPage (m := saved) id id
    fun page => { page with present := false, frame := -1 }
  rw [if_pos rfl] at hlookup
  obtain ⟨old, -, rfl⟩ := Option.map_eq_some_iff.1 (hlookup.symm.trans hpage')
  rfl

/-- The iteration of `process_suspend` on a level-1 entry that leads to the table it names
retires the pages of that table. -/
theorem suspendTable_retires {pid : Word} {level1Entry : ℕ}
    (h : m.suspendTable cfg host store pid k level1Entry = some m')
    (hderef : ∀ table ∈ host.deref level1Entry, table = level1Entry) :
    Retires k (fun id => id.table = level1Entry) m m' ∧
      ∀ id : PageId, id.table = level1Entry → m'.Absent id := by
  unfold suspendTable at h
  split at h
  · cases h
  rename_i table htable
  obtain rfl := hderef table htable
  split at h
  · cases h
  rename_i pages hpages
  have hretires : Retires k (fun id => id.table = table) m m' := by
    refine Machine.foldlM_invariant (fun _ j _ hm h => ?_) .refl h
    exact hm.trans ((suspendEntry_retires h).1.mono fun _ hid => hid ▸ rfl)
  refine ⟨hretires, ?_⟩
  have hdone := Machine.foldlM_done (fun j m => m.Absent ⟨table, j⟩)
    (fun _ _ _ _ h => (suspendEntry_retires h).2)
    (fun _ _ j _ _ hj h => (suspendEntry_retires h).1.absent ⟨table, j⟩ hj) h
  rintro ⟨table', j⟩ rfl page hpage
  -- a page there is one the loop has visited
  have hlt : j < pages.length := by
    simp only [page?, Option.bind_eq_bind, Option.bind_eq_some_iff] at hpage
    obtain ⟨pages', hpages', hentry⟩ := hpage
    have hlengths := congrArg (·[table']?) hretires.lengths
    simp only [List.getElem?_map, hpages', hpages, Option.map_some, Option.some.injEq] at hlengths
    exact hlengths ▸ (List.getElem?_eq_some_iff.1 hentry).1
  exact hdone j (List.mem_range.2 hlt) page hpage

/-- `process_suspend` retires the pages of the process. -/
theorem processSuspend_retires {pid pt1Index processFramesIndex : Word}
    {answer : Option MemoryAnswer} (hpid : pid ≠ 0)
    (h : m.processSuspend cfg host store pid pt1Index processFramesIndex = some (m', answer))
    (hderef : ∀ level1Entry ∈ (m.level1Tables[pt1Index.toNat]?).getD [],
      ∀ table ∈ host.deref level1Entry, table = level1Entry) :
    Retires processFramesIndex.toNat (m.Owns pt1Index.toNat) m m' ∧
      ∀ id, m.Owns pt1Index.toNat id → m'.Absent id := by
  unfold processSuspend at h
  rw [if_neg hpid] at h
  split at h
  · cases h
  rename_i entries hentries
  obtain ⟨suspended, hsuspended, heq⟩ := Option.map_eq_some_iff.1 h
  cases heq
  rw [hentries, Option.getD_some] at hderef
  have howns : ∀ id, m.Owns pt1Index.toNat id ↔ id.table ∈ entries := by
    intro id
    rw [Owns, hentries, Option.getD_some]
  constructor
  · refine Machine.foldlM_invariant_of_mem (fun e he _ _ hm h => ?_) .refl hsuspended
    refine hm.trans ((suspendTable_retires h (hderef e he)).1.mono ?_)
    rintro id rfl
    exact (howns id).2 he
  · have hdone := Machine.foldlM_done (fun e m => ∀ id : PageId, id.table = e → m.Absent id)
        (fun e he _ _ h => (suspendTable_retires h (hderef e he)).2)
        (fun e he _ _ _ hd h id hid =>
          (suspendTable_retires h (hderef e he)).1.absent id (hd id hid)) hsuspended
    intro id hid
    exact hdone id.table ((howns id).1 hid) id rfl

/-! ## The invariant -/

/-- The two sides agree on the pages of live processes. -/
structure Linked (live : ℕ → Prop) (m : Memory Swap) : Prop where
  lengths : m.level1Tables.length = m.processesFrames.length
  tables : ∀ i id, m.Owns i id → id.table < m.level2Tables.length
  disjoint : ∀ i j id, m.Owns i id → m.Owns j id → i = j
  entries : ∀ process ∈ m.processesFrames, ∀ entry ∈ process.frames,
    -1 ≤ entry.frame ∧ (entry.pageData ≠ none → 0 ≤ entry.frame)
  owned : ∀ i frame id, m.HeldBy i frame id → m.Owns i id
  held : ∀ i, live i → ∀ id, m.Owns i id → ∀ frame, m.InFrame id frame ↔ m.HeldBy i frame id

variable {live live' : ℕ → Prop}

/-- A number past the last process owns no page. -/
theorem Linked.lt_of_owns (hm : m.Linked live) {i : ℕ} {id : PageId} (hid : m.Owns i id) :
    i < m.processesFrames.length := by
  rw [← hm.lengths]
  by_contra hge
  rw [Owns, List.getElem?_eq_none (Nat.le_of_not_lt hge)] at hid
  exact absurd hid (by simp)

theorem Linked.mono (hm : m.Linked live) (h : ∀ i < m.processesFrames.length, live' i → live i) :
    m.Linked live' :=
  ⟨hm.lengths, hm.tables, hm.disjoint, hm.entries, hm.owned,
    fun i hi id hid => hm.held i (h i (hm.lt_of_owns hid) hi) id hid⟩

/-- What the invariant reads. -/
theorem Linked.of_eq (hm : m.Linked live) (hlevel1 : m'.level1Tables = m.level1Tables)
    (hlevel2 : m'.level2Tables = m.level2Tables)
    (hprocesses : m'.processesFrames = m.processesFrames) : m'.Linked live := by
  have howns : ∀ i id, m'.Owns i id ↔ m.Owns i id := by
    intro i id
    rw [Owns, Owns, hlevel1]
  refine ⟨?_, ?_, ?_, ?_, ?_, ?_⟩
  · rw [hlevel1, hprocesses]
    exact hm.lengths
  · intro i id hid
    rw [hlevel2]
    exact hm.tables i id ((howns i id).1 hid)
  · intro i j id hi hj
    exact hm.disjoint i j id ((howns i id).1 hi) ((howns j id).1 hj)
  · rw [hprocesses]
    exact hm.entries
  · intro i frame id hheld
    rw [HeldBy, hprocesses] at hheld
    exact (howns i id).2 (hm.owned i frame id hheld)
  · intro i hi id hid frame
    rw [InFrame, HeldBy, page?, hlevel2, hprocesses]
    exact hm.held i hi id ((howns i id).1 hid) frame

/-- After a release the other processes have what they had. -/
theorem Linked.retires (hm : m.Linked live) {gone : PageId → Prop} (h : Retires k gone m m')
    (hgone : ∀ id, gone id → m.Owns k id)
    (hlist : live' k → m' = m ∨ ∀ id, m.Owns k id → m'.Absent id)
    (hlive : ∀ i, live' i → live i) : m'.Linked live' := by
  have howns : ∀ i id, m'.Owns i id ↔ m.Owns i id := by
    intro i id
    rw [Owns, Owns, h.level1Tables]
  refine ⟨?_, ?_, ?_, ?_, ?_, ?_⟩
  · rw [h.level1Tables, h.count]
    exact hm.lengths
  · intro i id hid
    have hlength : m'.level2Tables.length = m.level2Tables.length := by
      simpa using congrArg List.length h.lengths
    rw [hlength]
    exact hm.tables i id ((howns i id).1 hid)
  · intro i j id hi hj
    exact hm.disjoint i j id ((howns i id).1 hi) ((howns j id).1 hj)
  · intro process hprocess entry hentry
    rcases h.entries process hprocess with hold | hnew
    · exact hm.entries process hold entry hentry
    · rw [hnew entry hentry]
      exact ⟨Int.le_refl _, fun hdata => absurd rfl hdata⟩
  · intro i frame id hheld
    rw [howns]
    by_cases hik : i = k
    · subst hik
      rcases h.list with rfl | hemptied
      · exact hm.owned i frame id hheld
      · exact absurd hheld (hemptied.not_heldBy frame id)
    · rw [HeldBy, h.lists i hik] at hheld
      exact hm.owned i frame id hheld
  · intro i hi id hid frame
    rw [howns] at hid
    by_cases hik : i = k
    · subst hik
      rcases h.list with rfl | hemptied
      · exact hm.held i (hlive i hi) id hid frame
      · rcases hlist hi with rfl | habsent
        · exact hm.held i (hlive i hi) id hid frame
        · exact iff_of_false ((habsent id hid).not_inFrame frame) (hemptied.not_heldBy frame id)
    · have hpage : m'.page? id = m.page? id :=
        h.pages id fun hid' => hik (hm.disjoint i k id hid (hgone id hid'))
      rw [InFrame, HeldBy, hpage, h.lists i hik]
      exact hm.held i (hlive i hi) id hid frame

theorem processSuspend_linked {pid pt1Index processFramesIndex : Word}
    {answer : Option MemoryAnswer}
    (h : m.processSuspend cfg host store pid pt1Index processFramesIndex = some (m', answer))
    (hsame : pt1Index = processFramesIndex)
    (hderef : ∀ level1Entry ∈ (m.level1Tables[pt1Index.toNat]?).getD [],
      ∀ table ∈ host.deref level1Entry, table = level1Entry)
    (hm : m.Linked live) : m'.Linked live := by
  subst hsame
  by_cases hpid : pid = 0
  · rw [processSuspend, if_pos hpid] at h
    cases h
    exact hm
  · obtain ⟨hretires, habsent⟩ := processSuspend_retires hpid h hderef
    exact hm.retires hretires (fun _ hid => hid) (fun _ => .inr habsent) fun _ hi => hi

theorem processExit_linked {pid processFramesIndex : Word} {answer : Option MemoryAnswer}
    (h : m.processExit store pid processFramesIndex = some (m', answer))
    (hlive : ∀ i, live' i → live i ∧ i ≠ processFramesIndex.toNat)
    (hm : m.Linked live) : m'.Linked live' := by
  unfold processExit at h
  split at h
  · cases h
    exact hm.mono fun i _ hi => (hlive i hi).1
  · obtain ⟨released, hreleased, heq⟩ := Option.map_eq_some_iff.1 h
    cases heq
    have hretires := (unassignProcessFrames_retires hreleased).1
    have hlinked := hm.retires hretires (fun _ hid => hid.elim)
      (fun hi => absurd rfl (hlive _ hi).2) fun i hi => (hlive i hi).1
    exact hlinked.of_eq rfl rfl rfl

/-! ## Creation -/

/-- The loop of `page_table_init` names the tables it adds. -/
theorem addLevel2Tables_entries (pid : Word) (n : ℕ) (entries : List ℕ) (m : Memory Swap) :
    ∀ table ∈ (addLevel2Tables cfg pid n entries m).1, table ∈ entries ∨
      m.level2Tables.length ≤ table ∧ table < m.level2Tables.length + n := by
  induction n generalizing entries m with
  | zero => exact fun _ h => .inl h
  | succ n ih =>
      intro table htable
      rcases ih _ _ table htable with hold | hnew
      · rcases List.mem_append.1 hold with hold | hnew
        · exact .inl hold
        · rw [List.mem_singleton.1 hnew]
          exact .inr ⟨Nat.le_refl _, by omega⟩
      · simp only [List.length_append, List.length_singleton] at hnew
        exact .inr ⟨by omega, by omega⟩

/-- The frames given out have no page. -/
theorem assignFrames_entries (n : ℕ) (bitmap : List Bool) :
    ∀ entry ∈ (assignFrames cfg n bitmap []).2, 0 ≤ entry.frame ∧ entry.pageData = none := by
  intro entry hentry
  exact ⟨assignFrames_nonneg n bitmap [] (by simp) entry hentry,
    assignFrames_pageData n bitmap [] (by simp) entry hentry⟩

/-- What `process_new` adds: a level-1 table, `n` level-2 tables, which it names, and a frame
list. -/
structure Creates (cfg : MemoryConfig) (table1 : List ℕ) (n : ℕ) (process : ProcessFrame)
    (m m' : Memory Swap) : Prop where
  level1Tables : m'.level1Tables = m.level1Tables ++ [table1]
  level2Tables : m'.level2Tables = m.level2Tables ++ List.replicate n (newLevel2Table cfg)
  processesFrames : m'.processesFrames = m.processesFrames ++ [process]
  named : ∀ table ∈ table1, m.level2Tables.length ≤ table ∧ table < m.level2Tables.length + n
  entries : ∀ entry ∈ process.frames, 0 ≤ entry.frame ∧ entry.pageData = none

theorem processNew_creates (cfg : MemoryConfig) (store : SwapStore Swap) (m : Memory Swap)
    {pid : Word} (processSize : Word) (hpid : pid ≠ 0) :
    ∃ table1 n process, Creates cfg table1 n process m
      (m.processNew cfg store pid processSize).1 := by
  rw [processNew, if_neg hpid]
  refine ⟨(addLevel2Tables cfg pid (level2PagesRequired cfg processSize) [] m).1,
    level2PagesRequired cfg processSize,
    ⟨(assignFrames cfg cfg.framesPerProcess m.framesBitmap []).2, 0⟩, ?_, ?_, ?_, ?_, ?_⟩
  · simp [assignProcessFrames, pageTableInit, addLevel2Tables_eq]
  · simp [assignProcessFrames, pageTableInit, addLevel2Tables_eq]
  · simp [assignProcessFrames, pageTableInit, addLevel2Tables_eq]
  · intro table htable
    simpa using addLevel2Tables_entries pid (level2PagesRequired cfg processSize) [] m table htable
  · exact assignFrames_entries _ _

section Creates

variable {table1 : List ℕ} {n : ℕ} {process : ProcessFrame}

/-- A process is an old one, with its old tables, or the new one. -/
theorem Creates.owns (h : Creates cfg table1 n process m m')
    (hlengths : m.level1Tables.length = m.processesFrames.length) {i : ℕ} {id : PageId}
    (hid : m'.Owns i id) : (i < m.processesFrames.length ∧ m.Owns i id) ∨
      (i = m.processesFrames.length ∧ id.table ∈ table1) := by
  rw [Owns, h.level1Tables] at hid
  rcases Nat.lt_trichotomy i m.level1Tables.length with hlt | heq | hgt
  · rw [List.getElem?_append_left hlt] at hid
    exact .inl ⟨hlengths ▸ hlt, hid⟩
  · subst heq
    rw [List.getElem?_concat_length] at hid
    exact .inr ⟨hlengths, hid⟩
  · rw [List.getElem?_eq_none (by simp; omega)] at hid
    exact absurd hid (by simp)

/-- The old tables stay as they are. -/
theorem Creates.page?_of_lt (h : Creates cfg table1 n process m m') {id : PageId}
    (hlt : id.table < m.level2Tables.length) : m'.page? id = m.page? id := by
  rw [page?, page?, h.level2Tables, List.getElem?_append_left hlt]

/-- The new process has no page in a frame. -/
theorem Creates.absent (h : Creates cfg table1 n process m m') {id : PageId}
    (hname : id.table ∈ table1) : m'.Absent id := by
  intro page hpage
  rcases page?_append h.level2Tables hpage with hpage | ⟨-, -, pages, hpages, hmem⟩
  · simp only [page?, Option.bind_eq_bind, Option.bind_eq_some_iff] at hpage
    obtain ⟨pages, htable, -⟩ := hpage
    have hlt := (List.getElem?_eq_some_iff.1 htable).1
    exact absurd hlt (Nat.not_lt.2 (h.named _ hname).1)
  · rw [List.eq_of_mem_replicate hpages] at hmem
    exact (mem_newLevel2Table hmem).1

theorem Creates.emptied (h : Creates cfg table1 n process m m') :
    m'.Emptied m.processesFrames.length := by
  intro new hnew entry hentry
  rw [h.processesFrames, List.getElem?_concat_length, Option.some.injEq] at hnew
  subst hnew
  exact (h.entries entry hentry).2

/-- An entry with a page is one of an old process. -/
theorem Creates.heldBy (h : Creates cfg table1 n process m m') {i : ℕ} {frame : ℤ} {id : PageId}
    (hheld : m'.HeldBy i frame id) : i < m.processesFrames.length ∧ m.HeldBy i frame id := by
  rcases Nat.lt_or_ge i m.processesFrames.length with hlt | hge
  · rw [HeldBy, h.processesFrames, List.getElem?_append_left hlt] at hheld
    exact ⟨hlt, hheld⟩
  · rcases Nat.eq_or_lt_of_le hge with rfl | hgt
    · exact absurd hheld (h.emptied.not_heldBy frame id)
    · obtain ⟨new, hnew, -⟩ := hheld
      have hlt := (List.getElem?_eq_some_iff.1 hnew).1
      simp only [h.processesFrames, List.length_append, List.length_singleton] at hlt
      omega

theorem Linked.creates (hm : m.Linked live) (h : Creates cfg table1 n process m m')
    (hlive : ∀ i < m.processesFrames.length, live' i → live i) : m'.Linked live' := by
  refine ⟨?_, ?_, ?_, ?_, ?_, ?_⟩
  · rw [h.level1Tables, h.processesFrames, List.length_append, List.length_append, hm.lengths]
    rfl
  · intro i id hid
    rw [h.level2Tables, List.length_append, List.length_replicate]
    rcases h.owns hm.lengths hid with ⟨-, hid⟩ | ⟨-, hid⟩
    · exact Nat.lt_add_right _ (hm.tables i id hid)
    · exact (h.named _ hid).2
  · intro i j id hi hj
    rcases h.owns hm.lengths hi with ⟨-, hi⟩ | ⟨hi, hni⟩
    · rcases h.owns hm.lengths hj with ⟨-, hj⟩ | ⟨-, hnj⟩
      · exact hm.disjoint i j id hi hj
      · exact absurd (hm.tables i id hi) (Nat.not_lt.2 (h.named _ hnj).1)
    · rcases h.owns hm.lengths hj with ⟨-, hj⟩ | ⟨hj, -⟩
      · exact absurd (hm.tables j id hj) (Nat.not_lt.2 (h.named _ hni).1)
      · rw [hi, hj]
  · rw [h.processesFrames]
    intro process' hprocess entry hentry
    rcases List.mem_append.1 hprocess with hmem | hmem
    · exact hm.entries process' hmem entry hentry
    · rw [List.mem_singleton.1 hmem] at hentry
      have hfree := h.entries entry hentry
      exact ⟨by omega, fun _ => hfree.1⟩
  · intro i frame id hheld
    obtain ⟨hlt, hheld⟩ := h.heldBy hheld
    rw [Owns, h.level1Tables, List.getElem?_append_left (hm.lengths ▸ hlt)]
    exact hm.owned i frame id hheld
  · intro i hi id hid frame
    rcases h.owns hm.lengths hid with ⟨hlt, hid⟩ | ⟨rfl, hname⟩
    · rw [InFrame, HeldBy, h.page?_of_lt (hm.tables i id hid), h.processesFrames,
        List.getElem?_append_left hlt]
      exact hm.held i (hlive i hlt hi) id hid frame
    · exact iff_of_false ((h.absent hname).not_inFrame frame) (h.emptied.not_heldBy frame id)

end Creates

theorem processNew_linked {pid processSize : Word} (hm : m.Linked live)
    (hlive : ∀ i < m.processesFrames.length, live' i → live i) :
    (m.processNew cfg store pid processSize).1.Linked live' := by
  by_cases hpid : pid = 0
  · rw [processNew, if_pos hpid]
    exact hm.mono hlive
  · obtain ⟨table1, n, process, hcreates⟩ := processNew_creates cfg store m processSize hpid
    exact hm.creates hcreates hlive

/-! ## Page faults -/

theorem getElem?_of_findFirstFreeFrame {process : ProcessFrame} {free : FrameEntry} {n : ℕ}
    (h : findFirstFreeFrame process = some (free, n)) :
    process.frames[n]? = some free ∧ free.frame ≠ -1 := by
  constructor
  · have hmem := List.mem_of_find?_eq_some h
    exact List.mem_zipIdx_iff_getElem?.1 hmem
  · have hassigned := List.find?_some h
    simpa [FrameEntry.assigned] using hassigned

/-- An entry without a page that takes one is the one change in what the entries have. -/
theorem heldBy_modifyFrame {process : ProcessFrame} {free : FrameEntry} {n : ℕ} (id : PageId)
    (hprocess : m.processesFrames[k]? = some process) (hentry : process.frames[n]? = some free)
    (hempty : free.pageData = none) (i : ℕ) (frame : ℤ) (id' : PageId) :
    (m.modifyFrame k n fun entry => { entry with pageData := some id }).HeldBy i frame id' ↔
      (i = k ∧ id' = id ∧ frame = free.frame) ∨ m.HeldBy i frame id' := by
  simp only [HeldBy, modifyFrame, List.getElem?_modify]
  by_cases hi : k = i
  · subst hi
    simp only [if_true, hprocess, Option.map_eq_map, Option.map_some, Option.some.injEq,
      exists_eq_left', true_and]
    constructor
    · rintro ⟨entry, hmem, hframe, hdata⟩
      obtain ⟨a, ha⟩ := List.getElem?_of_mem hmem
      rw [List.getElem?_modify] at ha
      by_cases han : n = a
      · subst han
        simp only [if_true, hentry, Option.map_eq_map, Option.map_some, Option.some.injEq] at ha
        subst ha
        simp only [Option.some.injEq] at hdata
        exact .inl ⟨hdata.symm, hframe.symm⟩
      · simp only [han, if_false] at ha
        exact .inr ⟨entry, List.mem_of_getElem? (by simpa using ha), hframe, hdata⟩
    · rintro (⟨rfl, rfl⟩ | ⟨entry, hmem, hframe, hdata⟩)
      · refine ⟨{ free with pageData := some id' }, List.mem_of_getElem? (i := n) ?_, rfl, rfl⟩
        rw [List.getElem?_modify_eq, hentry]
        rfl
      · obtain ⟨a, ha⟩ := List.getElem?_of_mem hmem
        refine ⟨entry, List.mem_of_getElem? (i := a) ?_, hframe, hdata⟩
        have han : n ≠ a := by
          rintro rfl
          rw [hentry, Option.some.injEq] at ha
          rw [← ha, hempty] at hdata
          cases hdata
        rw [List.getElem?_modify_ne _ _ han]
        exact ha
  · simp [hi, Ne.symm hi]

/-- The entry that takes a page has a frame. -/
theorem Linked.entries_modifyFrame (hm : m.Linked live) {process : ProcessFrame}
    {free : FrameEntry} {n : ℕ} (id : PageId) (hprocess : m.processesFrames[k]? = some process)
    (hentry : process.frames[n]? = some free) (hassigned : free.frame ≠ -1) :
    ∀ process ∈ (m.modifyFrame k n fun entry => { entry with pageData := some id }).processesFrames,
      ∀ entry ∈ process.frames, -1 ≤ entry.frame ∧ (entry.pageData ≠ none → 0 ≤ entry.frame) := by
  intro process' hprocess' entry hmem
  obtain ⟨j, hj⟩ := List.getElem?_of_mem hprocess'
  simp only [modifyFrame, List.getElem?_modify] at hj
  by_cases hjk : k = j
  · subst hjk
    simp only [if_true, hprocess, Option.map_eq_map, Option.map_some, Option.some.injEq] at hj
    subst hj
    obtain ⟨a, ha⟩ := List.getElem?_of_mem hmem
    rw [List.getElem?_modify, Option.map_eq_map, Option.map_eq_some_iff] at ha
    obtain ⟨old, hold, rfl⟩ := ha
    obtain ⟨hge, hpos⟩ := hm.entries process (List.mem_of_getElem? hprocess) old
      (List.mem_of_getElem? hold)
    by_cases han : n = a
    · subst han
      rw [hentry, Option.some.injEq] at hold
      subst hold
      rw [if_pos rfl]
      exact ⟨hge, fun _ => by simp only; omega⟩
    · rw [if_neg han]
      exact ⟨hge, hpos⟩
  · simp only [hjk, if_false] at hj
    exact hm.entries process' (List.mem_of_getElem? (by simpa using hj)) entry hmem

theorem assignPage_linked {process : ProcessFrame} {free : FrameEntry} {n : ℕ} {id : PageId}
    {page : PageEntry} (hpage : m.page? id = some page) (habsent : page.present = false)
    (hprocess : m.processesFrames[k]? = some process)
    (hfree : findFirstFreeFrame process = some (free, n)) (hempty : free.pageData = none)
    (hlive : live k) (hid : m.Owns k id) (hm : m.Linked live) :
    (m.assignPage cfg k n free.frame id).Linked live := by
  obtain ⟨hentry, hassigned⟩ := getElem?_of_findFirstFreeFrame hfree
  have hlookup : ∀ id', (m.assignPage cfg k n free.frame id).page? id' =
      if id = id' then (m.page? id').map fun page =>
        { page with present := true, frame := free.frame }
      else m.page? id' :=
    fun id' => page?_modifyPage id id' _
  have hheld : ∀ i frame id', (m.assignPage cfg k n free.frame id).HeldBy i frame id' ↔
      (i = k ∧ id' = id ∧ frame = free.frame) ∨ m.HeldBy i frame id' :=
    heldBy_modifyFrame id hprocess hentry hempty
  refine ⟨?_, ?_, hm.disjoint, ?_, ?_, ?_⟩
  · exact hm.lengths.trans (List.length_modify ..).symm
  · intro i id' hid'
    have hlength : (m.assignPage cfg k n free.frame id).level2Tables.length =
        m.level2Tables.length := List.length_modify ..
    rw [hlength]
    exact hm.tables i id' hid'
  · exact hm.entries_modifyFrame id hprocess hentry hassigned
  · intro i frame id' hheld'
    rcases (hheld i frame id').1 hheld' with ⟨rfl, rfl, -⟩ | hold
    · exact hid
    · exact hm.owned i frame id' hold
  · intro i hi id' hid' frame
    rw [hheld]
    by_cases heq : id = id'
    · subst heq
      obtain rfl := hm.disjoint i k id hid' hid
      have hnot : ¬ m.HeldBy i frame id := by
        rw [← hm.held i hi id hid frame]
        rintro ⟨page', hpage', hpresent, -⟩
        obtain rfl := Option.some.inj (hpage.symm.trans hpage')
        simp [habsent] at hpresent
      simp only [InFrame, hlookup, if_pos, hpage, Option.map_some, Option.some.injEq,
        exists_eq_left', true_and, hnot, or_false]
      exact eq_comm
    · rw [InFrame, hlookup, if_neg heq]
      simp only [Ne.symm heq, false_and, and_false, false_or]
      exact hm.held i hi id' hid' frame

theorem getFrameNumber_linked {pid : Word} {found : Option ℕ} {id : PageId} {frame : ℤ}
    (h : m.getFrameNumber cfg host store id pid found = some (m', frame))
    (hfound : found = some k) (hlive : live k) (hid : m.Owns k id) (hfull : m.FullEmpty cfg)
    (hempty : ∀ page ∈ m.page? id, page.present = false → ∀ process ∈ m.processesFrames[k]?,
      hasFreeFrame cfg process = true → ∀ free ∈ findFirstFreeFrame process,
        free.1.pageData = none)
    (hm : m.Linked live) : m'.Linked live := by
  rcases getFrameNumber_cases h hfull with ⟨page, -, -, rfl, -⟩ | ⟨page, -, -, rfl, -⟩ |
    ⟨page, i, process, free, n, hpage, habsent, hi, hprocess, hspare, hfree, rfl, -⟩
  · exact hm
  · exact hm
  · obtain rfl : k = i := Option.some.inj (hfound.symm.trans hi)
    have hnone := hempty page hpage habsent process hprocess hspare (free, n) hfree
    exact assignPage_linked hpage habsent hprocess hfree hnone hlive hid hm

end Memory

/-! ## Runs with live processes -/

/-- The memory module, and the processes that have exited, by their numbers.  The latter are
history only. -/
structure Tenancy (Swap : Type) where
  memory : Memory Swap
  exited : List ℕ := []

/-- The process that exits by the request. -/
def MemoryAction.exits : MemoryAction → List ℕ
  | .processExit _ _ processFramesIndex => [processFramesIndex.toNat]
  | _ => []

/-- The memory module, started. -/
def tenancy {Swap : Type} (cfg : MemoryConfig) (host : Host) (store : SwapStore Swap)
    (swap : Swap) : Machine (Tenancy Swap) MemoryAction where
  initial := { memory := Memory.start cfg swap }
  step action s := (s.memory.handle cfg host store action).map fun result =>
    ⟨result.1, action.exits ++ s.exited⟩

namespace Tenancy

variable {Swap : Type} {cfg : MemoryConfig} {host : Host} {store : SwapStore Swap} {swap : Swap}
  {s s' : Tenancy Swap}

/-- `process_new` has made process `i`, and it has not exited. -/
def Live (s : Tenancy Swap) (i : ℕ) : Prop :=
  i < s.memory.processesFrames.length ∧ i ∉ s.exited

instance (i : ℕ) : Decidable (s.Live i) :=
  inferInstanceAs (Decidable (_ ∧ _))

/-- The request is about a live process: its indices are those that `process_new` gave, the page
is one of its own, and the frame list found is the one in `processes_frames`. -/
def Requested (action : MemoryAction) (s : Tenancy Swap) : Prop :=
  match action with
  | .processSuspend _ pt1Index processFramesIndex | .processExit _ pt1Index processFramesIndex =>
      pt1Index = processFramesIndex ∧ s.Live processFramesIndex.toNat
  | .accessLvl2Table _ pt2Index entryIndex processFramesIndex found =>
      found = some processFramesIndex.toNat ∧ s.Live processFramesIndex.toNat ∧
        s.memory.Owns processFramesIndex.toNat ⟨pt2Index.toNat, entryIndex.toNat⟩
  | _ => True

/-- A suspension reads the tables that the level-1 entries name, and the entry that a fault takes
has no page. -/
def TakesEmpty (cfg : MemoryConfig) (host : Host) (action : MemoryAction) (s : Tenancy Swap) :
    Prop :=
  match action with
  | .processSuspend _ pt1Index _ =>
      ∀ level1Entry ∈ (s.memory.level1Tables[pt1Index.toNat]?).getD [],
        ∀ table ∈ host.deref level1Entry, table = level1Entry
  | .accessLvl2Table _ pt2Index entryIndex processFramesIndex _ =>
      ∀ page ∈ s.memory.page? ⟨pt2Index.toNat, entryIndex.toNat⟩, page.present = false →
        ∀ process ∈ s.memory.processesFrames[processFramesIndex.toNat]?,
          hasFreeFrame cfg process = true →
            ∀ free ∈ findFirstFreeFrame process, free.1.pageData = none
  | _ => True

instance (action : MemoryAction) : Decidable (s.Requested action) :=
  match action with
  | .processSuspend _ _ _ | .processExit _ _ _ => inferInstanceAs (Decidable (_ ∧ _))
  | .accessLvl2Table _ _ _ _ _ => inferInstanceAs (Decidable (_ ∧ _ ∧ _))
  | .processNew _ _ | .accessLvl1Table _ _ | .memoryRead _ | .memoryWrite _ _ =>
      inferInstanceAs (Decidable True)

instance (action : MemoryAction) : Decidable (s.TakesEmpty cfg host action) :=
  match action with
  | .processSuspend _ pt1Index _ =>
      inferInstanceAs (Decidable (∀ level1Entry ∈ (s.memory.level1Tables[pt1Index.toNat]?).getD [],
        ∀ table ∈ host.deref level1Entry, table = level1Entry))
  | .accessLvl2Table _ pt2Index entryIndex processFramesIndex _ =>
      inferInstanceAs (Decidable (∀ page ∈ s.memory.page? ⟨pt2Index.toNat, entryIndex.toNat⟩, _ →
        ∀ process ∈ s.memory.processesFrames[processFramesIndex.toNat]?, _ →
          ∀ free ∈ findFirstFreeFrame process, _))
  | .processNew _ _ | .processExit _ _ _ | .accessLvl1Table _ _ | .memoryRead _
  | .memoryWrite _ _ => inferInstanceAs (Decidable True)

/-- No two pages of live processes are in one frame, and a page is in a frame exactly if the
entry of its process that has the frame has the page. -/
structure Mapped (s : Tenancy Swap) : Prop where
  apart : ∀ i j id id' frame, s.Live i → s.Live j → s.memory.Owns i id → s.memory.Owns j id' →
    s.memory.InFrame id frame → s.memory.InFrame id' frame → id = id'
  held : ∀ i id frame, s.Live i → s.memory.Owns i id →
    (s.memory.InFrame id frame ↔ s.memory.HeldBy i frame id)

/-- The invariant, for the processes that have not exited. -/
def Agrees (s : Tenancy Swap) : Prop :=
  s.memory.Linked fun i => i ∉ s.exited

theorem step_agrees {action : MemoryAction}
    (h : (tenancy cfg host store swap).step action s = some s') (hfull : s.memory.FullEmpty cfg)
    (hrequested : s.Requested action) (hempty : s.TakesEmpty cfg host action) (hs : s.Agrees) :
    s'.Agrees := by
  obtain ⟨⟨m', answer⟩, hhandle, rfl⟩ := Option.map_eq_some_iff.1 h
  have hlive : ∀ i, i ∉ action.exits ++ s.exited → i ∉ s.exited :=
    fun i hi hmem => hi (List.mem_append_right _ hmem)
  change m'.Linked fun i => i ∉ action.exits ++ s.exited
  refine Memory.handle_elim hhandle ?create ?suspend ?exit ?access ?write ?same
  case create =>
    intro pid processSize _
    exact Memory.processNew_linked hs fun i _ => hlive i
  case suspend =>
    rintro pid pt1Index processFramesIndex m' rfl h
    exact Memory.processSuspend_linked h hrequested.1 hempty hs
  case exit =>
    rintro pid pt1Index processFramesIndex m' rfl h
    refine Memory.processExit_linked h ?_ hs
    intro i hi
    simpa [MemoryAction.exits, and_comm] using hi
  case access =>
    rintro pid pt2Index entryIndex processFramesIndex found m' frame rfl hframe
    obtain ⟨hfound, hlive, howns⟩ := hrequested
    exact Memory.getFrameNumber_linked hframe hfound hlive.2 howns hfull hempty hs
  case write => exact fun _ _ => (hs.mono fun i _ => hlive i).of_eq rfl rfl rfl
  case same => exact hs.mono fun i _ => hlive i

theorem start_agrees : (tenancy cfg host store swap).initial.Agrees := by
  refine ⟨rfl, ?_, ?_, ?_, ?_, ?_⟩
  · intro i id hid
    simp [tenancy, Memory.start, Memory.Owns] at hid
  · intro i j id hid
    simp [tenancy, Memory.start, Memory.Owns] at hid
  · intro process hprocess
    simp [tenancy, Memory.start] at hprocess
  · rintro i frame id ⟨process, hprocess, -⟩
    simp [tenancy, Memory.start] at hprocess
  · intro i _ id hid
    simp [tenancy, Memory.start, Memory.Owns] at hid

variable {guard : MemoryAction → Tenancy Swap → Prop}

/-- Without the history of exits it is a run of the memory module. -/
theorem memory_reachable (hs : (tenancy cfg host store swap).ReachableBy guard s) :
    (memoryModule cfg host store swap).Reachable s.memory := by
  induction hs with
  | initial => exact .initial
  | step _ _ h ih =>
      obtain ⟨result, hhandle, rfl⟩ := Option.map_eq_some_iff.1 h
      exact ih.next (Option.map_eq_some_iff.2 ⟨result, hhandle, rfl⟩)

/-- Two entries with the same frame are one entry. -/
theorem entry_unique (hm : (memoryModule cfg host store swap).Reachable s.memory) {frame : ℤ}
    (hframe : 0 ≤ frame) {process process' : ProcessFrame}
    (hprocess : process ∈ s.memory.processesFrames)
    (hprocess' : process' ∈ s.memory.processesFrames) {entry entry' : FrameEntry}
    (hentry : entry ∈ process.frames) (hentry' : entry' ∈ process'.frames)
    (heq : entry.frame = frame) (heq' : entry'.frame = frame) : entry = entry' := by
  obtain ⟨n, rfl⟩ := Int.eq_ofNat_of_zero_le hframe
  have hone : (s.memory.processesFrames.flatMap ProcessFrame.frames).countP
      (fun entry => entry.frame = (n : ℤ)) ≤ 1 := by
    rw [List.countP_flatMap]
    exact (Memory.frames_tracked hm n).1
  rw [List.countP_eq_length_filter] at hone
  have hmem : ∀ process ∈ s.memory.processesFrames, ∀ entry ∈ process.frames,
      entry.frame = (n : ℤ) → entry ∈ (s.memory.processesFrames.flatMap ProcessFrame.frames).filter
        fun entry => entry.frame = (n : ℤ) := by
    intro process hprocess entry hentry hn
    exact List.mem_filter.2 ⟨List.mem_flatMap.2 ⟨process, hprocess, hentry⟩, by simpa using hn⟩
  have hleft := hmem process hprocess entry hentry heq
  have hright := hmem process' hprocess' entry' hentry' heq'
  obtain ⟨last, hlast⟩ := List.length_eq_one_iff.1
    (Nat.le_antisymm hone (List.length_pos_of_mem hleft))
  rw [hlast, List.mem_singleton] at hleft hright
  rw [hleft, hright]

/-- What the invariant says of two pages in one frame. -/
theorem Agrees.mapped (hs : s.Agrees)
    (hm : (memoryModule cfg host store swap).Reachable s.memory) : s.Mapped := by
  have hheld : ∀ i id frame, s.Live i → s.memory.Owns i id →
      (s.memory.InFrame id frame ↔ s.memory.HeldBy i frame id) :=
    fun i id frame hi hid => hs.held i hi.2 id hid frame
  refine ⟨?_, hheld⟩
  intro i j id id' frame hi hj hid hid' hframe hframe'
  obtain ⟨process, hprocess, entry, hentry, heq, hdata⟩ := (hheld i id frame hi hid).1 hframe
  obtain ⟨process', hprocess', entry', hentry', heq', hdata'⟩ :=
    (hheld j id' frame hj hid').1 hframe'
  have hpos : 0 ≤ frame := by
    rw [← heq]
    exact (hs.entries process (List.mem_of_getElem? hprocess) entry hentry).2 (by simp [hdata])
  obtain rfl := entry_unique hm hpos (List.mem_of_getElem? hprocess)
    (List.mem_of_getElem? hprocess') hentry hentry' heq heq'
  exact Option.some.inj (hdata.symm.trans hdata')

/-- In every run in which each fault takes an entry without a page, the page tables and the frame
lists of the live processes agree in every state. -/
theorem mapped_of_reachable (hs : (tenancy cfg host store swap).ReachableBy
    (fun action s => s.Requested action ∧ s.TakesEmpty cfg host action) s) : s.Mapped := by
  have hagrees : s.Agrees := by
    refine hs.invariant_of (fun _ h => Memory.fullEmpty_of_reachable (memory_reachable h))
      start_agrees ?_
    intro action s s' hguard hfull hs h
    exact step_agrees h hfull hguard.1 hguard.2 hs
  exact hagrees.mapped (memory_reachable hs)

/-- A fault that takes an entry with a page puts two pages into one frame. -/
theorem not_mapped_of_taken {pid pt2Index entryIndex processFramesIndex : Word}
    {found : Option ℕ} (hnamed : pt2Index ≠ -1) (hs : s.Agrees)
    (h : (tenancy cfg host store swap).step
      (.accessLvl2Table pid pt2Index entryIndex processFramesIndex found) s = some s')
    (hrequested : s.Requested
      (.accessLvl2Table pid pt2Index entryIndex processFramesIndex found))
    (htaken : ¬ s.TakesEmpty cfg host
      (.accessLvl2Table pid pt2Index entryIndex processFramesIndex found)) : ¬ s'.Mapped := by
  obtain ⟨rfl, hlive, howns⟩ := hrequested
  simp only [TakesEmpty, not_forall] at htaken
  obtain ⟨page, hpage, habsent, process, hprocess, hspare, ⟨free, n⟩, hfree, hdata⟩ := htaken
  obtain ⟨old, hold⟩ := Option.ne_none_iff_exists'.1 hdata
  rw [Option.mem_def] at hpage hprocess hfree
  obtain ⟨⟨m', answer⟩, hhandle, rfl⟩ := Option.map_eq_some_iff.1 h
  simp only [Memory.handle, Memory.accessLvl2Table, if_neg hnamed, Memory.getFrameNumber, hpage,
    habsent, hprocess, hspare, hfree, Bool.false_eq_true, if_false, if_true, Option.map_some,
    Option.some.injEq, Prod.mk.injEq] at hhandle
  obtain ⟨rfl, -⟩ := hhandle
  -- the page that the entry had is resident, and is another one
  have hheld : s.memory.HeldBy processFramesIndex.toNat free.frame old :=
    ⟨process, hprocess, free,
      List.mem_of_getElem? (Memory.getElem?_of_findFirstFreeFrame hfree).1, rfl, hold⟩
  have hownsOld := hs.owned _ _ _ hheld
  obtain ⟨oldPage, holdPage, hpresent, hframe⟩ :=
    (hs.held _ hlive.2 old hownsOld free.frame).2 hheld
  have hne : (⟨pt2Index.toNat, entryIndex.toNat⟩ : PageId) ≠ old := by
    rintro rfl
    obtain rfl := Option.some.inj (hpage.symm.trans holdPage)
    simp [habsent] at hpresent
  have hlookup : ∀ id, (s.memory.assignPage cfg processFramesIndex.toNat n free.frame
      ⟨pt2Index.toNat, entryIndex.toNat⟩).page? id = _ := fun id => Memory.page?_modifyPage _ id _
  have hlive' : Live ⟨s.memory.assignPage cfg processFramesIndex.toNat n free.frame
      ⟨pt2Index.toNat, entryIndex.toNat⟩, s.exited⟩ processFramesIndex.toNat := by
    refine ⟨?_, hlive.2⟩
    simpa [Memory.assignPage, Memory.modifyFrame, Memory.modifyPage] using hlive.1
  intro hmapped
  refine hne (hmapped.apart _ _ _ old free.frame hlive' hlive' howns hownsOld ?_ ?_)
  · exact ⟨{ page with present := true, frame := free.frame }, by simp [hlookup, hpage], rfl, rfl⟩
  · exact ⟨oldPage, by rw [hlookup, if_neg hne, holdPage], hpresent, hframe⟩

/-- The memory module with small parameters and a faithful store. -/
def tenancySmall (framesPerProcess : ℕ) : Machine (Tenancy (Word → ℕ → Bytes)) MemoryAction :=
  tenancy (.small framesPerProcess) .direct (pageStore (.small framesPerProcess)) fun _ _ => []

/-- The one page of the second process is in its one frame, and the first process is suspended. -/
theorem mapped_of_reachable_small : ∃ s, (tenancySmall 2).ReachableBy
    (fun action s => s.Requested action ∧ s.TakesEmpty (.small 2) .direct action) s ∧
    s.memory.page? ⟨2, 1⟩ = some ⟨2, true, false, false, 1⟩ ∧ s.Mapped := by
  obtain ⟨s, hs, htest⟩ := Machine.exists_reachableBy_of_run (tenancySmall 2)
    (fun action s => s.Requested action ∧ s.TakesEmpty (.small 2) .direct action)
    [.processNew 1 32, .processNew 2 16, .accessLvl2Table 2 2 1 1 (some 1), .processSuspend 1 0 0]
    (fun s => s.memory.page? ⟨2, 1⟩ = some ⟨2, true, false, false, 1⟩) (by decide +kernel)
  exact ⟨s, hs, of_decide_eq_true htest, mapped_of_reachable hs⟩

/-- A process that got three frames of four has two pages, both in its first frame. -/
theorem not_mapped : ∃ s, (tenancySmall 4).ReachableBy (fun action s => s.Requested action) s ∧
    ¬ s.Mapped := by
  obtain ⟨s, hs, htest⟩ := Machine.exists_reachableBy_of_run (tenancySmall 4)
    (fun action s => s.Requested action)
    [.processNew 1 16, .accessLvl2Table 1 0 0 0 (some 0), .accessLvl2Table 1 0 1 0 (some 0)]
    (fun s => s.Live 0 ∧ s.memory.Owns 0 ⟨0, 0⟩ ∧ s.memory.Owns 0 ⟨0, 1⟩ ∧
      s.memory.page? ⟨0, 0⟩ = some ⟨0, true, false, false, 0⟩ ∧
      s.memory.page? ⟨0, 1⟩ = some ⟨0, true, false, false, 1⟩) (by decide +kernel)
  obtain ⟨hlive, hfirst, hsecond, hpage, hpage'⟩ := of_decide_eq_true htest
  refine ⟨s, hs, ?_⟩
  intro hmapped
  have heq := hmapped.apart 0 0 ⟨0, 0⟩ ⟨0, 1⟩ 0 hlive hlive hfirst hsecond ⟨_, hpage, rfl, rfl⟩
    ⟨_, hpage', rfl, rfl⟩
  simp at heq

end Tenancy
end SistemasOperativos
