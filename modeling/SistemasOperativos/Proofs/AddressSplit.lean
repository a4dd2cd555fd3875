import SistemasOperativos.Cpu.Mmu

/-!
# How an address is split

`mmu` splits a logical address by the size of a page and of a level-2 table, and
`page_table_init` makes the tables.  Both count whole pages only and in `int`s: the last pages of
a process may have no table, and from `2 ^ 31` on an address is negative.
-/

namespace SistemasOperativos

variable {cfg : MemoryConfig} {processSize a b : Word}

/-- The entries and the offset that `mmu` makes of an address lead to a table of the process, to
an entry of a table and into a page, and the address is what they stand for. -/
structure SplitRight (cfg : MemoryConfig) (processSize a : Word) : Prop where
  table : fstLevelEntry cfg a.toInt < level2PagesRequired cfg processSize
  entry : 0 ≤ scdLevelEntry cfg a.toInt ∧ scdLevelEntry cfg a.toInt < cfg.entriesPerTable
  offset : 0 ≤ pageOffset cfg a.toInt ∧ pageOffset cfg a.toInt < cfg.pageSize
  address : (fstLevelEntry cfg a.toInt * cfg.entriesPerTable + scdLevelEntry cfg a.toInt) *
    cfg.pageSize + pageOffset cfg a.toInt = a.toNat

/-- `mmu` makes the same entries of both addresses. -/
def SameEntries (cfg : MemoryConfig) (a b : Word) : Prop :=
  fstLevelEntry cfg a.toInt = fstLevelEntry cfg b.toInt ∧
    scdLevelEntry cfg a.toInt = scdLevelEntry cfg b.toInt

/-- The address is an `int`, and its page is one of the whole pages of the process, or one of
those that fill up its last table.  A process of `2 ^ 31` pages or more has one table at most. -/
def Splits (cfg : MemoryConfig) (processSize a : Word) : Prop :=
  a.toNat < 2 ^ 31 ∧
    (processSize.toNat / cfg.pageSize < 2 ^ 31 ∧
        (a.toNat / cfg.pageSize < processSize.toNat / cfg.pageSize ∨
          ¬ cfg.entriesPerTable ∣ processSize.toNat / cfg.pageSize) ∨
      2 ^ 31 ≤ processSize.toNat / cfg.pageSize ∧
        2 ^ 32 - processSize.toNat / cfg.pageSize < cfg.entriesPerTable ∧
          a.toNat < cfg.entriesPerTable)

instance : Decidable (Splits cfg processSize a) :=
  inferInstanceAs (Decidable (_ ∧ _))

/-! ## Addresses that are ints -/

theorem toInt_of_lt (ha : a.toNat < 2 ^ 31) : a.toInt = (a.toNat : ℤ) := by
  rw [BitVec.toInt_eq_toNat_cond, if_pos (by omega)]

theorem lt_of_nonneg (ha : 0 ≤ a.toInt) : a.toNat < 2 ^ 31 := by
  rw [BitVec.toInt_eq_toNat_cond] at ha
  split at ha <;> omega

theorem pageNumber_of_lt (ha : a.toNat < 2 ^ 31) :
    pageNumber cfg a.toInt = ((a.toNat / cfg.pageSize : ℕ) : ℤ) := by
  rw [pageNumber, toInt_of_lt ha, ← Int.ofNat_tdiv]

theorem fstLevelEntry_of_lt (ha : a.toNat < 2 ^ 31) :
    fstLevelEntry cfg a.toInt = ((a.toNat / cfg.pageSize / cfg.entriesPerTable : ℕ) : ℤ) := by
  rw [fstLevelEntry, pageNumber_of_lt ha, ← Int.ofNat_tdiv]

theorem scdLevelEntry_of_lt (ha : a.toNat < 2 ^ 31) :
    scdLevelEntry cfg a.toInt = ((a.toNat / cfg.pageSize % cfg.entriesPerTable : ℕ) : ℤ) := by
  rw [scdLevelEntry, pageNumber_of_lt ha, ← Int.ofNat_tmod]

theorem pageOffset_of_lt (ha : a.toNat < 2 ^ 31) :
    pageOffset cfg a.toInt = ((a.toNat % cfg.pageSize : ℕ) : ℤ) := by
  have hdivmod := Nat.div_add_mod' a.toNat cfg.pageSize
  calc pageOffset cfg a.toInt
      = (a.toNat : ℤ) - ((a.toNat / cfg.pageSize * cfg.pageSize : ℕ) : ℤ) := by
        rw [pageOffset, pageNumber_of_lt ha, toInt_of_lt ha, Int.natCast_mul]
    _ = ((a.toNat % cfg.pageSize : ℕ) : ℤ) := by omega

/-- Whatever the sign, the parts of an `int` stand for it. -/
theorem parts_eq (cfg : MemoryConfig) (logicDir : ℤ) :
    (fstLevelEntry cfg logicDir * cfg.entriesPerTable + scdLevelEntry cfg logicDir) *
      cfg.pageSize + pageOffset cfg logicDir = logicDir := by
  have hpage : fstLevelEntry cfg logicDir * cfg.entriesPerTable + scdLevelEntry cfg logicDir =
      pageNumber cfg logicDir := by
    rw [fstLevelEntry, scdLevelEntry, Int.tdiv_mul_add_tmod]
  calc (fstLevelEntry cfg logicDir * cfg.entriesPerTable + scdLevelEntry cfg logicDir) *
        cfg.pageSize + pageOffset cfg logicDir
      = pageNumber cfg logicDir * cfg.pageSize + pageOffset cfg logicDir := by rw [hpage]
    _ = logicDir := by
        rw [pageOffset]
        omega

/-- The parts do not stand for an address that is no `int`. -/
theorem lt_of_address (h : (fstLevelEntry cfg a.toInt * cfg.entriesPerTable +
    scdLevelEntry cfg a.toInt) * cfg.pageSize + pageOffset cfg a.toInt = a.toNat) :
    a.toNat < 2 ^ 31 := by
  rw [parts_eq, BitVec.toInt_eq_toNat_cond] at h
  split at h <;> omega

/-- Two `int`s have the same entries exactly if they lie on one page. -/
theorem sameEntries_iff (ha : a.toNat < 2 ^ 31) (hb : b.toNat < 2 ^ 31) :
    SameEntries cfg a b ↔ a.toNat / cfg.pageSize = b.toNat / cfg.pageSize := by
  rw [SameEntries, fstLevelEntry_of_lt ha, fstLevelEntry_of_lt hb, scdLevelEntry_of_lt ha,
    scdLevelEntry_of_lt hb, Int.natCast_inj, Int.natCast_inj]
  constructor
  · rintro ⟨hfst, hscd⟩
    calc a.toNat / cfg.pageSize
        = cfg.entriesPerTable * (a.toNat / cfg.pageSize / cfg.entriesPerTable) +
            a.toNat / cfg.pageSize % cfg.entriesPerTable := (Nat.div_add_mod _ _).symm
      _ = cfg.entriesPerTable * (b.toNat / cfg.pageSize / cfg.entriesPerTable) +
            b.toNat / cfg.pageSize % cfg.entriesPerTable := by rw [hfst, hscd]
      _ = b.toNat / cfg.pageSize := Nat.div_add_mod _ _
  · intro hpage
    rw [hpage]
    exact ⟨rfl, rfl⟩

/-! ## Tables -/

/-- Which addresses of a process have a table. -/
theorem table_iff (ha : a.toNat < processSize.toNat) :
    a.toNat / cfg.pageSize / cfg.entriesPerTable < level2PagesRequired cfg processSize ↔
      processSize.toNat / cfg.pageSize < 2 ^ 31 ∧
          (a.toNat / cfg.pageSize < processSize.toNat / cfg.pageSize ∨
            ¬ cfg.entriesPerTable ∣ processSize.toNat / cfg.pageSize) ∨
        2 ^ 31 ≤ processSize.toNat / cfg.pageSize ∧
          2 ^ 32 - processSize.toNat / cfg.pageSize < cfg.entriesPerTable ∧
            a.toNat < cfg.entriesPerTable := by
  have hpage : a.toNat / cfg.pageSize ≤ processSize.toNat / cfg.pageSize :=
    Nat.div_le_div_right (Nat.le_of_lt ha)
  have hentries := cfg.entriesPerTable_pos
  rcases Nat.lt_or_ge (processSize.toNat / cfg.pageSize) (2 ^ 31) with hlt | hge
  · rw [level2PagesRequired_of_lt hlt, Nat.dvd_iff_mod_eq_zero]
    have hnever : ¬ 2 ^ 31 ≤ processSize.toNat / cfg.pageSize := Nat.not_le.2 hlt
    simp only [hlt, hnever, true_and, false_and, or_false]
    by_cases hwhole : processSize.toNat / cfg.pageSize % cfg.entriesPerTable = 0
    · obtain ⟨tables, htables⟩ := Nat.dvd_of_mod_eq_zero hwhole
      rw [if_neg (by simpa using hwhole), htables, Nat.mul_div_cancel_left _ hentries,
        Nat.add_zero, Nat.div_lt_iff_lt_mul hentries, Nat.mul_comm tables]
      simp
    · rw [if_pos hwhole]
      have htable : a.toNat / cfg.pageSize / cfg.entriesPerTable ≤
          processSize.toNat / cfg.pageSize / cfg.entriesPerTable := Nat.div_le_div_right hpage
      exact iff_of_true (by omega) (.inr hwhole)
  · -- That many pages are of one byte each.
    have hsize : cfg.pageSize = 1 := by
      have hword := processSize.isLt
      have hpos := cfg.pageSize_pos
      have hmul := (Nat.le_div_iff_mul_le hpos).1 hge
      by_contra hne
      have hmore : 2 ^ 31 * 2 < 2 ^ 32 := by
        calc 2 ^ 31 * 2
            ≤ 2 ^ 31 * cfg.pageSize := Nat.mul_le_mul_left _ (by omega)
          _ ≤ processSize.toNat := hmul
          _ < 2 ^ 32 := hword
      exact absurd hmore (by decide)
    rw [level2PagesRequired_of_ge hge]
    have hnever : ¬ processSize.toNat / cfg.pageSize < 2 ^ 31 := Nat.not_lt.2 hge
    simp only [hge, hnever, true_and, false_and, false_or]
    rw [hsize, Nat.div_one, Nat.div_one]
    split
    · rename_i hone
      rw [Nat.div_lt_iff_lt_mul hentries, Nat.one_mul]
      exact (and_iff_right hone).symm
    · rename_i hnone
      exact iff_of_false (Nat.not_lt_zero _) fun h => hnone h.1

/-! ## Both sides -/

theorem splitRight_iff (ha : a.toNat < processSize.toNat) :
    SplitRight cfg processSize a ↔ Splits cfg processSize a := by
  constructor
  · intro h
    have hint := lt_of_address h.address
    have htable := h.table
    rw [fstLevelEntry_of_lt hint, Int.ofNat_lt] at htable
    exact ⟨hint, (table_iff ha).1 htable⟩
  · rintro ⟨hint, htable⟩
    refine ⟨?_, ?_, ?_, ?_⟩
    · rw [fstLevelEntry_of_lt hint, Int.ofNat_lt]
      exact (table_iff ha).2 htable
    · rw [scdLevelEntry_of_lt hint]
      exact ⟨Int.natCast_nonneg _, Int.ofNat_lt.2 (Nat.mod_lt _ cfg.entriesPerTable_pos)⟩
    · rw [pageOffset_of_lt hint]
      exact ⟨Int.natCast_nonneg _, Int.ofNat_lt.2 (Nat.mod_lt _ cfg.pageSize_pos)⟩
    · rw [parts_eq, toInt_of_lt hint]

/-- Two addresses of a process are split as they should be, and have the same entries exactly if
they lie on one page, if and only if both are `int`s whose pages have tables. -/
theorem split_iff (ha : a.toNat < processSize.toNat) (hb : b.toNat < processSize.toNat) :
    SplitRight cfg processSize a ∧ SplitRight cfg processSize b ∧
        (SameEntries cfg a b ↔ a.toNat / cfg.pageSize = b.toNat / cfg.pageSize) ↔
      Splits cfg processSize a ∧ Splits cfg processSize b := by
  rw [splitRight_iff ha, splitRight_iff hb]
  constructor
  · rintro ⟨hsplits, hsplits', -⟩
    exact ⟨hsplits, hsplits'⟩
  · rintro ⟨hsplits, hsplits'⟩
    exact ⟨hsplits, hsplits', sameEntries_iff hsplits.1 hsplits'.1⟩

/-- Two pages of a process of four pages, in tables of two. -/
theorem split_iff_small : SplitRight (.small 1) 32 20 ∧ SplitRight (.small 1) 32 31 ∧
    (SameEntries (.small 1) 20 31 ↔ (20 : Word).toNat / 8 = (31 : Word).toNat / 8) :=
  (@split_iff (.small 1) 32 20 31 (by decide) (by decide)).2 ⟨by decide, by decide⟩

/-- A process of two pages and a half, in tables of two, has one table; its last addresses ask for
the second. -/
theorem not_split : (16 : Word).toNat < (20 : Word).toNat ∧
    fstLevelEntry (.small 1) (16 : Word).toInt = 1 ∧ level2PagesRequired (.small 1) 20 = 1 ∧
    ¬ SplitRight (.small 1) 20 16 := by
  refine ⟨by decide, by decide, by decide, fun h => ?_⟩
  have htable := h.table
  revert htable
  decide

end SistemasOperativos
