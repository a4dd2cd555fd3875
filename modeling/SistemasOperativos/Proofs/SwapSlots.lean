import SistemasOperativos.Proofs.TableIndices

/-!
# Where the pages are in the swap file

`page_table_init` numbers the pages of each level-2 table from 0, and the number is the slot of
the page in the swap file of its process: the second table of a process shares the slots of the
first, and the slots of a table that the process does not fill lie behind the end of the file.
-/

namespace SistemasOperativos

/-- The process has no whole page, or as many as one table has entries.  A process of `2 ^ 31`
pages or more has one table at most, which may be smaller than the process. -/
def OneTable (cfg : MemoryConfig) (processSize : Word) : Prop :=
  processSize.toNat / cfg.pageSize = 0 ∨
    processSize.toNat / cfg.pageSize = cfg.entriesPerTable ∨
      2 ^ 31 ≤ processSize.toNat / cfg.pageSize ∧
        cfg.entriesPerTable ≤ processSize.toNat / cfg.pageSize

instance (cfg : MemoryConfig) (processSize : Word) : Decidable (OneTable cfg processSize) :=
  inferInstanceAs (Decidable (_ ∨ _))

/-- There is one table at most, and all its slots lie in a file of the size of the process. -/
theorem oneTable_iff {cfg : MemoryConfig} {processSize : Word} :
    OneTable cfg processSize ↔ level2PagesRequired cfg processSize ≤ 1 ∧
      (0 < level2PagesRequired cfg processSize →
        cfg.entriesPerTable * cfg.pageSize ≤ processSize.toNat) := by
  have hentries := cfg.entriesPerTable_pos
  rw [OneTable, ← Nat.le_div_iff_mul_le cfg.pageSize_pos]
  rcases Nat.lt_or_ge (processSize.toNat / cfg.pageSize) (2 ^ 31) with hlt | hge
  · rw [level2PagesRequired_of_lt hlt]
    generalize processSize.toNat / cfg.pageSize = pages at hlt ⊢
    have hdivmod := Nat.div_add_mod pages cfg.entriesPerTable
    have hmod := Nat.mod_lt pages hentries
    have hnever : ¬ 2 ^ 31 ≤ pages := Nat.not_le.2 hlt
    simp only [hnever, false_and, or_false]
    constructor
    · rintro (rfl | rfl)
      · simp
      · simp [Nat.div_self hentries]
    · rintro ⟨hone, hfull⟩
      generalize pages / cfg.entriesPerTable = quotient at hdivmod hone hfull
      generalize pages % cfg.entriesPerTable = rest at hdivmod hmod hone hfull
      obtain rfl | rfl : quotient = 0 ∨ quotient = 1 := by omega
      · by_cases hrest : rest = 0
        · omega
        · rw [if_pos hrest] at hfull
          omega
      · by_cases hrest : rest = 0
        · omega
        · rw [if_pos hrest] at hone
          omega
  · rw [level2PagesRequired_of_ge hge]
    split <;> omega

namespace Memory

variable {Swap : Type} {cfg : MemoryConfig} {host : Host} {store : SwapStore Swap} {swap : Swap}
  {m : Memory Swap} {created : List (Word × Word)} {i k j : ℕ}

/-- The page numbers of a process, which `save_swap` and `get_swap` take for slots, differ, and
the slots lie in a file of `processSize` bytes. -/
structure SlotsSound (cfg : MemoryConfig) (created : List (Word × Word)) (m : Memory Swap) (i : ℕ)
    (processSize : Word) : Prop where
  distinct : ∀ k j k' j' page page', HasTable cfg created i k → HasTable cfg created i k' →
    m.page? ⟨tablePosition cfg created i k, j⟩ = some page →
    m.page? ⟨tablePosition cfg created i k', j'⟩ = some page' →
    page.page = page'.page → k = k' ∧ j = j'
  inside : ∀ k j page, HasTable cfg created i k →
    m.page? ⟨tablePosition cfg created i k, j⟩ = some page →
    (page.page + 1) * cfg.pageSize ≤ processSize.toNat

theorem page?_map_page (m : Memory Swap) (id : PageId) :
    (m.page? id).map PageEntry.page =
      m.pageNumbers[id.table]? >>= fun numbers => numbers[id.entry]? := by
  rw [page?, pageNumbers, List.getElem?_map]
  cases m.level2Tables[id.table]? <;> simp

/-- The page in an entry of a table of a process has the number of the entry. -/
theorem Numbered.page?_eq (hm : m.Numbered cfg created) (h : HasTable cfg created i k) (j : ℕ) :
    (m.page? ⟨tablePosition cfg created i k, j⟩).map PageEntry.page =
      (List.range cfg.entriesPerTable)[j]? := by
  rw [page?_map_page, hm.pages, List.getElem?_replicate_of_lt h.position_lt]
  rfl

theorem Numbered.page_number (hm : m.Numbered cfg created) (h : HasTable cfg created i k)
    {page : PageEntry} (hpage : m.page? ⟨tablePosition cfg created i k, j⟩ = some page) :
    page.page = j ∧ j < cfg.entriesPerTable := by
  have heq := hm.page?_eq h j
  rw [hpage, Option.map_some] at heq
  obtain ⟨hlt, hget⟩ := List.getElem?_eq_some_iff.1 heq.symm
  exact ⟨by simpa using hget.symm, by simpa using hlt⟩

theorem Numbered.exists_page (hm : m.Numbered cfg created) (h : HasTable cfg created i k)
    (hj : j < cfg.entriesPerTable) :
    ∃ page, m.page? ⟨tablePosition cfg created i k, j⟩ = some page ∧ page.page = j := by
  have heq := hm.page?_eq h j
  rw [List.getElem?_range hj, Option.map_eq_some_iff] at heq
  exact heq

/-- After any history of requests the slots of a process are right if and only if its pages fill
the one table it has, or it has none. -/
theorem slotsSound_iff {history : List MemoryAction} {pid processSize : Word}
    (h : (memoryModule cfg host store swap).run history (start cfg swap) = some m)
    (hi : (creations history)[i]? = some (pid, processSize)) :
    SlotsSound cfg (creations history) m i processSize ↔ OneTable cfg processSize := by
  have hm := numbered_of_run h
  have hentries := cfg.entriesPerTable_pos
  have htable : ∀ k, HasTable cfg (creations history) i k ↔
      k < level2PagesRequired cfg processSize := by
    intro k
    simp [HasTable, tableCounts, hi]
  rw [oneTable_iff]
  constructor
  · intro hsound
    constructor
    · -- The first pages of the first two tables have number 0.
      by_contra hmore
      have hfirst := (htable 0).2 (by omega)
      have hsecond := (htable 1).2 (by omega)
      obtain ⟨page, hpage, hnumber⟩ := hm.exists_page hfirst hentries
      obtain ⟨page', hpage', hnumber'⟩ := hm.exists_page hsecond hentries
      have heq := hsound.distinct 0 0 1 0 page page' hfirst hsecond hpage hpage'
        (hnumber.trans hnumber'.symm)
      exact absurd heq.1 Nat.zero_ne_one
    · intro hpos
      have hfirst := (htable 0).2 hpos
      obtain ⟨page, hpage, hnumber⟩ := hm.exists_page hfirst (Nat.sub_one_lt_of_lt hentries)
      have hinside := hsound.inside 0 _ page hfirst hpage
      rwa [hnumber, Nat.sub_add_cancel hentries] at hinside
  · rintro ⟨hone, hfull⟩
    constructor
    · intro k j k' j' page page' hk hk' hpage hpage' heq
      have hk_lt := (htable k).1 hk
      have hk_lt' := (htable k').1 hk'
      rw [(hm.page_number hk hpage).1, (hm.page_number hk' hpage').1] at heq
      exact ⟨by omega, heq⟩
    · intro k j page hk hpage
      obtain ⟨hnumber, hlt⟩ := hm.page_number hk hpage
      have hk_lt := (htable k).1 hk
      calc (page.page + 1) * cfg.pageSize
          ≤ cfg.entriesPerTable * cfg.pageSize := by
            rw [hnumber]
            exact Nat.mul_le_mul_right _ hlt
        _ ≤ processSize.toNat := hfull (by omega)

/-- A process of two pages, in tables of two. -/
theorem slotsSound_small : ∃ m,
    (memoryModuleSmall 1).run [.processNew 1 16] (start (.small 1) fun _ _ => []) = some m ∧
      SlotsSound (.small 1) (creations [.processNew 1 16]) m 0 16 :=
  have hfirst : (creations [.processNew 1 16])[0]? = some (1, 16) := rfl
  ⟨_, rfl, (slotsSound_iff (show (memoryModule (.small 1) .direct (pageStore (.small 1))
    fun _ _ => []).run [.processNew 1 16] _ = some _ from rfl) hfirst).2 (by decide)⟩

/-- A process of four pages: the first pages of its two tables share slot 0. -/
theorem not_slotsSound : ∃ m,
    (memoryModuleSmall 1).run [.processNew 1 32] (start (.small 1) fun _ _ => []) = some m ∧
      m.page? ⟨0, 0⟩ = some ⟨-1, false, false, false, 0⟩ ∧
      m.page? ⟨1, 0⟩ = some ⟨-1, false, false, false, 0⟩ ∧
      ¬ SlotsSound (.small 1) (creations [.processNew 1 32]) m 0 32 := by
  refine ⟨_, rfl, by decide, by decide, fun h => ?_⟩
  have heq := h.distinct 0 0 1 0 _ _ ⟨2, by decide, by decide⟩ ⟨2, by decide, by decide⟩ rfl rfl rfl
  exact absurd heq.1 Nat.zero_ne_one

end Memory
end SistemasOperativos
