import SistemasOperativos.Library.Blocks
import SistemasOperativos.Proofs.Isolation

/-!
# Where the level-2 tables are

`process_new` appends a level-1 table to its list and the level-2 tables of the process to theirs,
and no request removes one: the numbers written to the level-1 tables are consecutive blocks, one
a process.  They are written as numbers and read back through pointers, so a lookup finds its
table exactly where the number, taken for an address, leads to itself.
-/

namespace SistemasOperativos

/-! ## Histories -/

/-- The pid and the size of the process that a request creates. -/
def MemoryAction.creation : MemoryAction → Option (Word × Word)
  | .processNew pid processSize => if pid = 0 then none else some (pid, processSize)
  | _ => none

/-- The processes created by a history of requests, in order. -/
def creations (history : List MemoryAction) : List (Word × Word) :=
  history.filterMap MemoryAction.creation

/-- How many level-2 tables `page_table_init` makes for each process. -/
def tableCounts (cfg : MemoryConfig) (created : List (Word × Word)) : List ℕ :=
  created.map fun process => level2PagesRequired cfg process.2

/-- The position in `level2_tables` of table `k` of process `i`: it is the `k`-th one behind those
of the processes created before. -/
def tablePosition (cfg : MemoryConfig) (created : List (Word × Word)) (i k : ℕ) : ℕ :=
  Blocks.start (tableCounts cfg created) i + k

namespace Memory

variable {Swap : Type} {cfg : MemoryConfig} {host : Host} {store : SwapStore Swap} {swap : Swap}
  {m m' : Memory Swap} {created : List (Word × Word)}

/-- The numbers of the pages in each level-2 table. -/
def pageNumbers (m : Memory Swap) : List (List ℕ) :=
  m.level2Tables.map fun entries => entries.map PageEntry.page

@[simp] theorem length_pageNumbers : m.pageNumbers.length = m.level2Tables.length := by
  simp [pageNumbers]

/-! ## Requests that create nothing -/

/-- The tables, the numbers in them and the lists are where they were. -/
structure SameShape (m m' : Memory Swap) : Prop where
  level1Tables : m'.level1Tables = m.level1Tables
  pageNumbers : m'.pageNumbers = m.pageNumbers
  processes : m'.processesFrames.length = m.processesFrames.length

theorem SameShape.refl : SameShape m m :=
  ⟨rfl, rfl, rfl⟩

theorem SameShape.trans {m'' : Memory Swap} (h : SameShape m m') (h' : SameShape m' m'') :
    SameShape m m'' :=
  ⟨h'.level1Tables.trans h.level1Tables, h'.pageNumbers.trans h.pageNumbers,
    h'.processes.trans h.processes⟩

theorem modifyPage_sameShape (id : PageId) {f : PageEntry → PageEntry}
    (hf : ∀ page, (f page).page = page.page) : SameShape m (m.modifyPage id f) where
  level1Tables := rfl
  pageNumbers := map_modify_of_eq (map_modify_of_eq hf · id.entry) _ _
  processes := rfl

theorem modifyFrame_sameShape (k i : ℕ) (f : FrameEntry → FrameEntry) :
    SameShape m (m.modifyFrame k i f) where
  level1Tables := rfl
  pageNumbers := rfl
  processes := by simp [modifyFrame]

theorem saveSwap_sameShape {frame : ℤ} {page : ℕ} {pid : Word}
    (h : m.saveSwap cfg host store frame page pid = some m') : SameShape m m' := by
  unfold saveSwap at h
  split at h <;> cases h
  exact ⟨rfl, rfl, rfl⟩

theorem unassignProcessFrames_sameShape {k : ℕ} (h : m.unassignProcessFrames k = some m') :
    SameShape m m' := by
  unfold unassignProcessFrames at h
  split at h <;> cases h
  exact ⟨rfl, rfl, by simp⟩

theorem suspendEntry_sameShape {pid : Word} {k : ℕ} {id : PageId}
    (h : m.suspendEntry cfg host store pid k id = some m') : SameShape m m' := by
  unfold suspendEntry at h
  split at h
  · cases h
  simp only at h
  split at h
  · cases h
  rename_i saved hsaved
  have hfirst : SameShape m saved := by
    split at hsaved
    · obtain ⟨written, hwritten, rfl⟩ := Option.map_eq_some_iff.1 hsaved
      exact (saveSwap_sameShape hwritten).trans (modifyPage_sameShape id fun _ => rfl)
    · cases hsaved
      exact .refl
  have hsecond := modifyPage_sameShape (m := saved) id
    (f := fun page => { page with present := false, frame := -1 }) fun _ => rfl
  have hthird := unassignProcessFrames_sameShape h
  exact (hfirst.trans hsecond).trans ⟨hthird.level1Tables, hthird.pageNumbers, hthird.processes⟩

theorem handle_sameShape {action : MemoryAction} {answer : Option MemoryAnswer}
    (h : m.handle cfg host store action = some (m', answer)) (hfull : m.FullEmpty cfg)
    (hnew : ∀ pid processSize, action ≠ .processNew pid processSize) : SameShape m m' := by
  refine handle_elim h ?create ?suspend ?exit ?access (fun _ _ => ⟨rfl, rfl, rfl⟩) .refl
  case create =>
    intro pid processSize heq
    exact absurd heq (hnew pid processSize)
  case suspend =>
    intro pid pt1Index processFramesIndex m' _ h
    refine processSuspend_invariant h (fun _ _ _ hm h => ?_) .refl
    exact hm.trans (suspendEntry_sameShape h)
  case exit =>
    intro pid pt1Index processFramesIndex m' _ h
    rcases processExit_eq_some h with rfl | ⟨released, hreleased, rfl⟩
    · exact .refl
    · have hshape := unassignProcessFrames_sameShape hreleased
      exact ⟨hshape.level1Tables, hshape.pageNumbers, hshape.processes⟩
  case access =>
    intro pid pt2Index entryIndex processFramesIndex found m' frame _ hframe
    rcases getFrameNumber_cases hframe hfull with ⟨page, -, -, rfl, -⟩ | ⟨page, -, -, rfl, -⟩ |
      ⟨page, k, process, free, i, -, -, -, -, -, -, rfl, -⟩
    · exact .refl
    · exact .refl
    · have hpages := modifyPage_sameShape (m := m) ⟨pt2Index.toNat, entryIndex.toNat⟩
        (f := fun page => { page with present := true, frame := free.frame }) fun _ => rfl
      have hlists := hpages.trans
        (modifyFrame_sameShape k i fun entry =>
          { entry with pageData := some ⟨pt2Index.toNat, entryIndex.toNat⟩ })
      exact ⟨hlists.level1Tables, hlists.pageNumbers, hlists.processes⟩

/-! ## The blocks -/

/-- The processes created have a level-1 table and a frame list each, and their level-2 tables are
consecutive blocks, the pages of each table being numbered from 0. -/
structure Numbered (cfg : MemoryConfig) (created : List (Word × Word)) (m : Memory Swap) :
    Prop where
  processes : m.processesFrames.length = created.length
  tables : m.level1Tables.length = created.length
  entries : ∀ i n, (tableCounts cfg created)[i]? = some n →
    m.level1Tables[i]? = some ((List.range n).map (tablePosition cfg created i))
  pages : m.pageNumbers =
    List.replicate (tableCounts cfg created).sum (List.range cfg.entriesPerTable)

theorem Numbered.sameShape (hm : m.Numbered cfg created) (h : SameShape m m') :
    m'.Numbered cfg created :=
  ⟨h.processes.trans hm.processes, h.level1Tables ▸ hm.tables, h.level1Tables ▸ hm.entries,
    h.pageNumbers.trans hm.pages⟩

theorem Numbered.length_level2Tables (hm : m.Numbered cfg created) :
    m.level2Tables.length = (tableCounts cfg created).sum := by
  rw [← length_pageNumbers, hm.pages, List.length_replicate]

/-- The loop of `page_table_init` numbers the tables it adds. -/
theorem addLevel2Tables_fst (pid : Word) (n : ℕ) (entries : List ℕ) (m : Memory Swap) :
    (addLevel2Tables cfg pid n entries m).1 =
      entries ++ (List.range n).map (m.level2Tables.length + ·) := by
  induction n generalizing entries m with
  | zero => simp [addLevel2Tables]
  | succ n ih =>
      rw [addLevel2Tables, ih, List.range_succ_eq_map]
      simp [Function.comp_def, Nat.add_assoc, Nat.add_comm 1]

/-- The pages of a new table are numbered from 0. -/
theorem map_page_newLevel2Table :
    (newLevel2Table cfg).map PageEntry.page = List.range cfg.entriesPerTable := by
  simp [newLevel2Table, Function.comp_def]

theorem tablePosition_append {rest : List (Word × Word)} {i : ℕ} (h : i ≤ created.length) :
    tablePosition cfg (created ++ rest) i = tablePosition cfg created i := by
  funext k
  rw [tablePosition, tablePosition, tableCounts, tableCounts, List.map_append,
    Blocks.start_append (by simpa using h)]

theorem processNew_numbered (store : SwapStore Swap) {pid : Word} (processSize : Word)
    (hpid : pid ≠ 0) (hm : m.Numbered cfg created) :
    (m.processNew cfg store pid processSize).1.Numbered cfg (created ++ [(pid, processSize)]) := by
  obtain ⟨n, hn⟩ : ∃ n, n = level2PagesRequired cfg processSize := ⟨_, rfl⟩
  have hcounts : tableCounts cfg (created ++ [(pid, processSize)]) =
      tableCounts cfg created ++ [n] := by
    simp [tableCounts, hn]
  have hlength : (tableCounts cfg created).length = created.length := List.length_map _
  have hpages : (m.pageTableInit cfg pid processSize).pageNumbers = m.pageNumbers ++
      List.replicate n (List.range cfg.entriesPerTable) := by
    simp [pageTableInit, pageNumbers, addLevel2Tables_eq, map_page_newLevel2Table, hn]
  have htables : (m.pageTableInit cfg pid processSize).level1Tables = m.level1Tables ++
      [(List.range n).map (m.level2Tables.length + ·)] := by
    simp [pageTableInit, addLevel2Tables_eq, addLevel2Tables_fst, hn]
  have hlists : (m.pageTableInit cfg pid processSize).processesFrames = m.processesFrames := by
    simp [pageTableInit, addLevel2Tables_eq]
  rw [processNew, if_neg hpid]
  refine ⟨?_, ?_, fun i count hi => ?_, ?_⟩
  · simp [assignProcessFrames, hlists, hm.processes]
  · simp [assignProcessFrames, htables, hm.tables]
  · have hentries : (m.pageTableInit cfg pid processSize).level1Tables[i]? =
        some ((List.range count).map
          (tablePosition cfg (created ++ [(pid, processSize)]) i)) := by
      rw [htables]
      rw [hcounts] at hi
      rcases Nat.lt_or_ge i created.length with hlt | hge
      · rw [List.getElem?_append_left (by omega)] at hi
        rw [List.getElem?_append_left (by rw [hm.tables]; exact hlt), hm.entries i count hi]
        rw [tablePosition_append (Nat.le_of_lt hlt)]
      · have hi_lt := (List.getElem?_eq_some_iff.1 hi).1
        rw [List.length_append, hlength, List.length_singleton] at hi_lt
        obtain rfl : i = created.length := by omega
        have hlast : n = count := by simpa [← hlength] using hi
        subst hlast
        rw [← hm.tables, List.getElem?_concat_length, hm.tables, hm.length_level2Tables]
        have hstart : tablePosition cfg (created ++ [(pid, processSize)]) created.length =
            ((tableCounts cfg created).sum + ·) := by
          rw [tablePosition_append (Nat.le_refl _)]
          funext k
          rw [tablePosition, ← hlength, Blocks.start_length]
        rw [hstart]
    exact hentries
  · have hnumbers : (m.pageTableInit cfg pid processSize).pageNumbers =
        List.replicate (tableCounts cfg (created ++ [(pid, processSize)])).sum
          (List.range cfg.entriesPerTable) := by
      rw [hpages, hm.pages, List.replicate_append_replicate, hcounts, List.sum_append,
        List.sum_singleton]
    exact hnumbers

theorem handle_numbered {action : MemoryAction} {answer : Option MemoryAnswer}
    (h : m.handle cfg host store action = some (m', answer)) (hfull : m.FullEmpty cfg)
    (hm : m.Numbered cfg created) :
    m'.Numbered cfg (created ++ action.creation.toList) := by
  by_cases hnew : ∃ pid processSize, action = .processNew pid processSize
  · obtain ⟨pid, processSize, rfl⟩ := hnew
    have heq : (m.processNew cfg store pid processSize).1 = m' :=
      congrArg Prod.fst (Option.some.inj h)
    rw [← heq, MemoryAction.creation]
    by_cases hpid : pid = 0
    · simpa [processNew, hpid] using hm
    · rw [if_neg hpid]
      exact processNew_numbered store processSize hpid hm
  · have hnone : action.creation = none := by
      cases action with
      | processNew pid processSize => exact absurd ⟨pid, processSize, rfl⟩ hnew
      | _ => rfl
    rw [hnone, Option.toList_none, List.append_nil]
    refine hm.sameShape (handle_sameShape h hfull fun pid processSize heq => ?_)
    exact hnew ⟨pid, processSize, heq⟩

/-- A run on any requests keeps the blocks, and adds those of the processes it creates. -/
theorem run_numbered {history : List MemoryAction}
    (h : (memoryModule cfg host store swap).run history m = some m') (hfull : m.FullEmpty cfg)
    (hm : m.Numbered cfg created) : m'.Numbered cfg (created ++ creations history) := by
  induction history generalizing m created with
  | nil =>
      cases h
      simpa [creations] using hm
  | cons action history ih =>
      rw [Machine.run] at h
      split at h
      · cases h
      rename_i next hnext
      obtain ⟨⟨m₁, answer⟩, hhandle, rfl⟩ := Option.map_eq_some_iff.1 hnext
      have hnumbered := ih h (handle_fullEmpty hhandle hfull) (handle_numbered hhandle hfull hm)
      have hcreations : creations (action :: history) =
          action.creation.toList ++ creations history := by
        rw [creations, List.filterMap_cons]
        cases action.creation <;> rfl
      rw [hcreations, ← List.append_assoc]
      exact hnumbered

theorem start_numbered : (start cfg swap).Numbered cfg [] where
  processes := rfl
  tables := rfl
  entries := by simp [tableCounts]
  pages := rfl

/-- After any history the tables are where the processes created put them. -/
theorem numbered_of_run {history : List MemoryAction}
    (h : (memoryModule cfg host store swap).run history (start cfg swap) = some m) :
    m.Numbered cfg (creations history) := by
  have hempty : (start cfg swap).FullEmpty cfg := by
    simp [FullEmpty, start]
  simpa using run_numbered h hempty start_numbered

/-! ## Lookups -/

/-- Process `i` has a level-2 table `k`. -/
def HasTable (cfg : MemoryConfig) (created : List (Word × Word)) (i k : ℕ) : Prop :=
  ∃ n, (tableCounts cfg created)[i]? = some n ∧ k < n

/-- The lookups of `get_page_table2_index` and of `process_suspend` find the tables where
`page_table_init` put them, no two the same; what `process_new` answers is where the process
is, and stays there whatever comes later. -/
structure TablesReached (cfg : MemoryConfig) (host : Host) (store : SwapStore Swap) (swap : Swap)
    (created : List (Word × Word)) (m : Memory Swap) : Prop where
  looked : ∀ i k, HasTable cfg created i k →
    m.getPageTable2Index host i k = some (tablePosition cfg created i k)
  suspended : ∀ i k, HasTable cfg created i k → ∃ entries entry,
    m.level1Tables[i]? = some entries ∧ entries[k]? = some entry ∧
      host.deref entry = some (tablePosition cfg created i k)
  made : ∀ i k, HasTable cfg created i k →
    tablePosition cfg created i k < m.level2Tables.length
  distinct : ∀ i k i' k', HasTable cfg created i k → HasTable cfg created i' k' →
    m.getPageTable2Index host i k = m.getPageTable2Index host i' k' → i = i' ∧ k = k'
  answered : ∀ pid processSize, pid ≠ 0 → (m.processNew cfg store pid processSize).2 =
    some (.processMemoryReady pid (BitVec.ofNat 32 created.length)
      (BitVec.ofNat 32 created.length))
  kept : ∀ later m', (memoryModule cfg host store swap).run later m = some m' → ∀ i k,
    HasTable cfg created i k →
      m'.getPageTable2Index host i k = m.getPageTable2Index host i k ∧
        i < m'.level1Tables.length ∧ i < m'.processesFrames.length

theorem HasTable.lt {i k : ℕ} (h : HasTable cfg created i k) : i < created.length := by
  obtain ⟨n, hn, -⟩ := h
  simpa [tableCounts] using (List.getElem?_eq_some_iff.1 hn).1

theorem HasTable.append {i k : ℕ} (h : HasTable cfg created i k) (rest : List (Word × Word)) :
    HasTable cfg (created ++ rest) i k := by
  have hlt := h.lt
  obtain ⟨n, hn, hk⟩ := h
  refine ⟨n, ?_, hk⟩
  rw [tableCounts, List.map_append, List.getElem?_append_left (by simpa using hlt)]
  exact hn

/-- A table that a process has is one of those made. -/
theorem HasTable.position_lt {i k : ℕ} (h : HasTable cfg created i k) :
    tablePosition cfg created i k < (tableCounts cfg created).sum := by
  obtain ⟨n, hn, hk⟩ := h
  exact Blocks.start_add_lt_sum hn hk

/-- No two tables have one position. -/
theorem HasTable.position_injective {i k i' k' : ℕ} (h : HasTable cfg created i k)
    (h' : HasTable cfg created i' k')
    (heq : tablePosition cfg created i k = tablePosition cfg created i' k') :
    i = i' ∧ k = k' := by
  obtain ⟨n, hn, hk⟩ := h
  obtain ⟨n', hn', hk'⟩ := h'
  exact Blocks.start_add_injective hn hk hn' hk' heq

theorem Numbered.entry (hm : m.Numbered cfg created) {i k : ℕ} (h : HasTable cfg created i k) :
    ∃ entries, m.level1Tables[i]? = some entries ∧
      entries[k]? = some (tablePosition cfg created i k) := by
  obtain ⟨n, hn, hk⟩ := h
  exact ⟨_, hm.entries i n hn, by simp [hk]⟩

/-- A lookup takes the position of the table for an address. -/
theorem Numbered.lookup (hm : m.Numbered cfg created) {i k : ℕ} (h : HasTable cfg created i k) :
    m.getPageTable2Index host i k = host.deref (tablePosition cfg created i k) := by
  obtain ⟨entries, hentries, hentry⟩ := hm.entry h
  simp [getPageTable2Index, hentries, hentry]

/-- The index that `process_new` answers with is the number of processes created before. -/
theorem Numbered.answer (hm : m.Numbered cfg created) (store : SwapStore Swap) {pid : Word}
    (processSize : Word) (hpid : pid ≠ 0) : (m.processNew cfg store pid processSize).2 =
      some (.processMemoryReady pid (BitVec.ofNat 32 created.length)
        (BitVec.ofNat 32 created.length)) := by
  rw [processNew, if_neg hpid, hm.tables, hm.processes]

/-- After any history of requests the lookups are right if and only if, for the number of every
level-2 table made so far, the host has that number at the address with that number. -/
theorem tablesReached_iff {history : List MemoryAction}
    (h : (memoryModule cfg host store swap).run history (start cfg swap) = some m) :
    TablesReached cfg host store swap (creations history) m ↔
      ∀ number < (tableCounts cfg (creations history)).sum, host.deref number = some number := by
  have hm := numbered_of_run h
  have hfull : m.FullEmpty cfg := fullEmpty_of_reachable (Machine.reachable_run .initial h)
  constructor
  · intro hreached number hnumber
    obtain ⟨i, n, k, hi, hk, rfl⟩ := Blocks.exists_start_add hnumber
    have htable : HasTable cfg (creations history) i k := ⟨n, hi, hk⟩
    exact (hm.lookup htable).symm.trans (hreached.looked i k htable)
  · intro hderef
    have hposition : ∀ i k, HasTable cfg (creations history) i k →
        host.deref (tablePosition cfg (creations history) i k) =
          some (tablePosition cfg (creations history) i k) :=
      fun i k htable => hderef _ htable.position_lt
    refine ⟨?_, ?_, ?_, ?_, fun pid size hpid => hm.answer store size hpid, ?_⟩
    · intro i k htable
      rw [hm.lookup htable, hposition i k htable]
    · intro i k htable
      obtain ⟨entries, hentries, hentry⟩ := hm.entry htable
      exact ⟨entries, _, hentries, hentry, hposition i k htable⟩
    · intro i k htable
      rw [hm.length_level2Tables]
      exact htable.position_lt
    · intro i k i' k' htable htable' heq
      rw [hm.lookup htable, hm.lookup htable', hposition i k htable, hposition i' k' htable',
        Option.some.injEq] at heq
      exact htable.position_injective htable' heq
    · intro later m' hlater i k htable
      have hm' := run_numbered hlater hfull hm
      have hlt := htable.lt
      refine ⟨?_, ?_, ?_⟩
      · rw [hm.lookup htable, hm'.lookup (htable.append _), tablePosition_append (Nat.le_of_lt hlt)]
      · rw [hm'.tables, List.length_append]
        omega
      · rw [hm'.processes, List.length_append]
        omega

/-- Two processes, of one and of three tables, on a host that leads every number to itself. -/
theorem tablesReached_small : ∃ m,
    (memoryModuleSmall 1).run [.processNew 1 16, .processNew 2 40]
        (start (.small 1) fun _ _ => []) = some m ∧
      TablesReached (.small 1) .direct (pageStore (.small 1)) (fun _ _ => [])
        (creations [.processNew 1 16, .processNew 2 40]) m := by
  have hsome : ((memoryModuleSmall 1).run [.processNew 1 16, .processNew 2 40]
      (start (.small 1) fun _ _ => [])).isSome := by decide +kernel
  obtain ⟨m, hm⟩ := Option.isSome_iff_exists.1 hsome
  exact ⟨m, hm, (tablesReached_iff hm).2 fun _ _ => rfl⟩

/-- A host on which the first page of the address space is not mapped. -/
def unmappedHost : Host :=
  { Host.direct with deref := fun address => if address < 4096 then none else some 0 }

/-- A process of one table: the lookup of the table reads address 0. -/
theorem not_tablesReached : ∃ m,
    (memoryModule (.small 1) unmappedHost (pageStore (.small 1)) fun _ _ => []).run
        [.processNew 1 16] (start (.small 1) fun _ _ => []) = some m ∧
      m.level1Tables = [[0]] ∧ m.getPageTable2Index unmappedHost 0 0 = none ∧
      ¬ TablesReached (.small 1) unmappedHost (pageStore (.small 1)) (fun _ _ => [])
        (creations [.processNew 1 16]) m := by
  refine ⟨_, rfl, by decide, by decide, fun h => ?_⟩
  have hlooked := h.looked 0 0 ⟨1, by decide, by decide⟩
  revert hlooked
  decide

end Memory
end SistemasOperativos
