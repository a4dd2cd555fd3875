import SistemasOperativos.Cpu.Tlb

/-!
# What the calls on the TLB do

One statement for each operation: which entry `add_tlb_entry` fills, which one `drop_tlb_entry`
frees, and what `get_tlb_frame` finds and counts.
-/

namespace SistemasOperativos.Tlb

variable {n : ℕ} {settings : TlbSettings n} {tlb tlb' : Tlb n} {page frame : Word}

/-! ## The first entry of an array -/

/-- A search of the array ends on the first entry that passes the test. -/
theorem find?_finRange {p : Fin n → Bool} {i : Fin n} (h : (List.finRange n).find? p = some i) :
    p i = true ∧ ∀ j < i, p j = false := by
  obtain ⟨hp, before, after, hsplit, hbefore⟩ := List.find?_eq_some_iff_append.1 h
  refine ⟨hp, fun j hj => ?_⟩
  have hsorted := List.pairwise_lt_finRange n
  have hmem : j ∈ before ++ i :: after := hsplit ▸ List.mem_finRange j
  rw [hsplit, List.pairwise_append] at hsorted
  rcases List.mem_append.1 hmem with hj' | hj'
  · simpa using hbefore j hj'
  · rcases List.mem_cons.1 hj' with rfl | hafter
    · exact absurd hj (Nat.lt_irrefl _)
    · have := (List.pairwise_cons.1 hsorted.2.1).1 j hafter
      exact absurd hj (Fin.not_lt.2 (Fin.le_of_lt this))

theorem find?_finRange_none {p : Fin n → Bool} (h : (List.finRange n).find? p = none) (i : Fin n) :
    p i = false := by
  simpa using List.find?_eq_none.1 h i (List.mem_finRange i)

/-! ## Additions and removals -/

theorem findFree_fst (tlb : Tlb n) (places : List (Fin n)) :
    (tlb.findFree places).1 = places.find? fun i => (tlb.entries i).isFree := by
  induction places with
  | nil => rfl
  | cons i rest ih =>
      rw [findFree, List.find?_cons]
      cases (tlb.entries i).isFree <;> simp [ih]

/-- The entry `add_tlb_entry` fills: the first free one, else the first victim. -/
def target (tlb : Tlb n) : Option (Fin n) :=
  match (List.finRange n).find? fun i => (tlb.entries i).isFree with
  | some i => some i
  | none => tlb.victims.head?.join

/-- What `add_tlb_entry` can do: fill the first free entry, replace the first victim, or, without
a victim, nothing. -/
theorem addTlbEntry_cases {mutex : List MutexOp}
    (h : tlb.addTlbEntry page frame = some (tlb', mutex)) :
    (∃ i, tlb.target = some i ∧ ¬ tlb.InUse i ∧ (∀ j < i, tlb.InUse j) ∧
      tlb' = tlb.fill i page frame) ∨
    (tlb.target = none ∧ (∀ i, tlb.InUse i) ∧ tlb.victims = [] ∧ tlb' = tlb) ∨
    (∀ i, tlb.InUse i) ∧ ∃ victim rest, tlb.target = some victim ∧
      tlb.victims = some victim :: rest ∧
      tlb' = { tlb with victims := rest }.fill victim page frame := by
  have hfst := tlb.findFree_fst (List.finRange n)
  rw [addTlbEntry] at h
  split at h
  · rename_i i ops hfind
    cases h
    rw [hfind] at hfst
    obtain ⟨hfree, hbefore⟩ := find?_finRange hfst.symm
    have htarget : tlb.target = some i := by rw [target, ← hfst]
    exact .inl ⟨i, htarget, by simpa [InUse] using hfree, hbefore, rfl⟩
  · rename_i ops hfind
    rw [hfind] at hfst
    have hall : ∀ i, tlb.InUse i := find?_finRange_none hfst.symm
    have htarget : tlb.target = tlb.victims.head?.join := by rw [target, ← hfst]
    split at h
    · rename_i hvictims
      cases h
      exact .inr (.inl ⟨by rw [htarget, hvictims]; rfl, hall, hvictims, rfl⟩)
    · cases h
    · rename_i victim rest hvictims
      cases h
      exact .inr (.inr ⟨hall, victim, rest, by rw [htarget, hvictims]; rfl, hvictims, rfl⟩)

theorem dropFrom_fst (tlb : Tlb n) (places : List (Fin n)) :
    (tlb.dropFrom page frame places).1 =
      match places.find? fun i => tlb.Names page frame i with
      | none => tlb
      | some i => tlb.free i := by
  induction places with
  | nil => rfl
  | cons i rest ih =>
      rw [dropFrom, List.find?_cons]
      by_cases hnames : tlb.Names page frame i <;> simp [hnames, ih]

/-- What `drop_tlb_entry` can do: free the first entry with the page and the frame, or nothing. -/
theorem dropTlbEntry_cases (tlb : Tlb n) (page frame : Word) :
    (∃ i, tlb.Names page frame i ∧ (∀ j < i, ¬ tlb.Names page frame j) ∧
      (tlb.dropTlbEntry page frame).1 = tlb.free i) ∨
    (∀ i, ¬ tlb.Names page frame i) ∧ (tlb.dropTlbEntry page frame).1 = tlb := by
  rw [dropTlbEntry, dropFrom_fst]
  cases hfind : (List.finRange n).find? fun i => tlb.Names page frame i with
  | none =>
      refine .inr ⟨fun i => ?_, rfl⟩
      simpa using find?_finRange_none hfind i
  | some i =>
      obtain ⟨hnames, hbefore⟩ := find?_finRange hfind
      refine .inl ⟨i, by simpa using hnames, fun j hj => ?_, rfl⟩
      simpa using hbefore j hj

/-! ## Lookups -/

/-- The entries a lookup of the page hits, in the order of the array. -/
def hits (tlb : Tlb n) (page : Word) : List (Fin n) :=
  (List.finRange n).filter fun i => tlb.Matches page i

theorem mem_hits {i : Fin n} : i ∈ tlb.hits page ↔ tlb.Matches page i := by
  simp [hits]

theorem matches_congr (h : tlb'.entries = tlb.entries) (i : Fin n) :
    tlb'.Matches page i ↔ tlb.Matches page i := by
  simp only [Matches, InUse, h]

/-- An entry of the loop of `get_tlb_frame` changes no entry. -/
theorem lookupEntry_entries (settings : TlbSettings n) (page : Word) (lookup : Lookup n)
    (i : Fin n) :
    (lookupEntry settings page lookup i).tlb.entries = lookup.tlb.entries := by
  rw [lookupEntry]
  split
  · cases settings.replaceAlgorithm <;> rfl
  · rfl

/-- What the loop of `get_tlb_frame` leaves: the frame of the last entry it hits, and a hit
counted for each. -/
theorem foldl_lookupEntry (settings : TlbSettings n) (page : Word) (places : List (Fin n))
    (lookup : Lookup n) :
    (places.foldl (lookupEntry settings page) lookup).tlb.entries = lookup.tlb.entries ∧
      (places.foldl (lookupEntry settings page) lookup).tlb.hitCounter =
        lookup.tlb.hitCounter + (places.filter fun i => lookup.tlb.Matches page i).length ∧
      (places.foldl (lookupEntry settings page) lookup).tlb.missCounter =
        lookup.tlb.missCounter ∧
      (places.foldl (lookupEntry settings page) lookup).frame =
        ((places.filter fun i => lookup.tlb.Matches page i).map fun i =>
          (lookup.tlb.entries i).frame).getLastD lookup.frame := by
  induction places generalizing lookup with
  | nil => exact ⟨rfl, rfl, rfl, rfl⟩
  | cons i rest ih =>
      obtain ⟨hentries, hhits, hmisses, hframe⟩ := ih (lookupEntry settings page lookup i)
      have hsame := lookupEntry_entries settings page lookup i
      simp only [matches_congr hsame, hsame] at hentries hhits hframe
      rw [List.foldl_cons, hentries, hhits, hmisses, hframe, lookupEntry]
      by_cases hmatches : lookup.tlb.Matches page i
      · rw [if_pos hmatches, List.filter_cons_of_pos (by simpa using hmatches), List.map_cons,
          List.getLastD_cons]
        refine ⟨rfl, ?_, ?_, rfl⟩
        · cases settings.replaceAlgorithm <;> simp [lruTlb] <;> omega
        · cases settings.replaceAlgorithm <;> rfl
      · rw [if_neg hmatches, List.filter_cons_of_neg (by simpa using hmatches)]
        exact ⟨rfl, rfl, rfl, rfl⟩

/-- What `get_tlb_frame` returns and counts. -/
theorem getTlbFrame_spec (settings : TlbSettings n) (tlb : Tlb n) (page : Word) :
    (tlb.getTlbFrame settings page).tlb.entries = tlb.entries ∧
      (tlb.getTlbFrame settings page).frame =
        ((tlb.hits page).map fun i => (tlb.entries i).frame).getLastD (-1) ∧
      (tlb.getTlbFrame settings page).tlb.hitCounter =
        tlb.hitCounter + (tlb.hits page).length ∧
      (tlb.getTlbFrame settings page).tlb.missCounter = tlb.missCounter +
        if (tlb.getTlbFrame settings page).frame = -1 then 1 else 0 := by
  obtain ⟨hentries, hhits, hmisses, hframe⟩ :=
    foldl_lookupEntry settings page (List.finRange n) ⟨tlb, -1, []⟩
  rw [getTlbFrame]
  by_cases hmiss : ((List.finRange n).foldl (lookupEntry settings page) ⟨tlb, -1, []⟩).frame = -1
  · simp only [if_pos hmiss]
    exact ⟨hentries, hframe, hhits, congrArg (· + 1) hmisses⟩
  · simp only [if_neg hmiss]
    exact ⟨hentries, hframe, hhits, hmisses⟩

/-- With FIFO a lookup leaves the victims alone. -/
theorem getTlbFrame_victims_fifo (hfifo : settings.replaceAlgorithm = .fifo) (tlb : Tlb n)
    (page : Word) : (tlb.getTlbFrame settings page).tlb.victims = tlb.victims := by
  have hfold : ∀ (places : List (Fin n)) (lookup : Lookup n),
      (places.foldl (lookupEntry settings page) lookup).tlb.victims = lookup.tlb.victims := by
    intro places
    induction places with
    | nil => exact fun _ => rfl
    | cons i rest ih =>
        intro lookup
        rw [List.foldl_cons, ih, lookupEntry, hfifo]
        split <;> rfl
  rw [getTlbFrame]
  split
  · exact hfold _ _
  · exact hfold _ _

/-- With LRU it puts one pointer behind them for each hit. -/
theorem getTlbFrame_victims_lru (hlru : settings.replaceAlgorithm = .lru) (tlb : Tlb n)
    (page : Word) :
    ∃ moved, (tlb.getTlbFrame settings page).tlb.victims = tlb.victims ++ moved ∧
      moved.length = (tlb.hits page).length := by
  have hfold : ∀ (places : List (Fin n)) (lookup : Lookup n),
      ∃ moved, (places.foldl (lookupEntry settings page) lookup).tlb.victims =
          lookup.tlb.victims ++ moved ∧
        moved.length = (places.filter fun i => lookup.tlb.Matches page i).length := by
    intro places
    induction places with
    | nil => exact fun _ => ⟨[], (List.append_nil _).symm, rfl⟩
    | cons i rest ih =>
        intro lookup
        obtain ⟨moved, hmoved, hlength⟩ := ih (lookupEntry settings page lookup i)
        simp only [matches_congr (lookupEntry_entries settings page lookup i)] at hlength
        rw [List.foldl_cons, hmoved]
        by_cases hmatches : lookup.tlb.Matches page i
        · refine ⟨settings.listRemove lookup.tlb i :: moved, ?_, by simp [hmatches, hlength]⟩
          rw [lookupEntry, if_pos hmatches, hlru]
          simp [lruTlb]
        · refine ⟨moved, ?_, by simp [hmatches, hlength]⟩
          rw [lookupEntry, if_neg hmatches]
  rw [getTlbFrame]
  split
  · exact hfold _ _
  · exact hfold _ _

end SistemasOperativos.Tlb
