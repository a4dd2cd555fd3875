import SistemasOperativos.Proofs.Mapping

/-!
# Which frame a fault is served by

A frame of a process is free for a page when it is assigned and has none.  `has_free_frame` and
`find_first_free_frame` both ask for `frame != -1` only: the one takes the entries that have a
frame for those that have a page, the other for those that have none.  So a process with all its
frames replaces a page at its first fault, when it has none, and one with fewer gets its first
frame every time.
-/

namespace SistemasOperativos

/-- The entry has a frame, and the frame has no page. -/
def FrameEntry.Empty (entry : FrameEntry) : Prop :=
  entry.assigned = true ∧ entry.pageData = none

namespace Memory

variable {Swap : Type} {cfg : MemoryConfig} {host : Host} {store : SwapStore Swap} {swap : Swap}
  {m : Memory Swap} {k : ℕ} {process : ProcessFrame} {id : PageId} {page : PageEntry}

/-- `get_frame_number` goes on to replace a page, in the frame list it has found. -/
def Replaces (cfg : MemoryConfig) (m : Memory Swap) (found : Option ℕ) : Prop :=
  ∃ k process, found = some k ∧ m.processesFrames[k]? = some process ∧
    hasFreeFrame cfg process = false

/-- A fault of process `k` is served: by an empty frame of the process while there is one, and
then nothing but the page and the entry of the frame is changed; by a replacement only when each
of its frames has a page; and with a frame of the process in any case. -/
structure FaultServed (cfg : MemoryConfig) (host : Host) (store : SwapStore Swap)
    (m : Memory Swap) (k : ℕ) (process : ProcessFrame) (id : PageId) (pid : Word)
    (found : Option ℕ) : Prop where
  empty : (∃ entry ∈ process.frames, entry.Empty) →
    ∃ i free, process.frames[i]? = some free ∧ free.Empty ∧
      m.getFrameNumber cfg host store id pid found =
        some (m.assignPage cfg k i free.frame id, free.frame)
  replaced : m.Replaces cfg found →
    ∀ entry ∈ process.frames, entry.assigned = true → entry.pageData ≠ none
  answered : ∃ m' frame, m.getFrameNumber cfg host store id pid found = some (m', frame) ∧
    ∃ entry ∈ process.frames, entry.assigned = true ∧ entry.frame = frame

/-- The list found is that of the process, not every entry it may have has a frame, and the first
one that has is empty, or none is. -/
structure FirstEmpty (cfg : MemoryConfig) (k : ℕ) (process : ProcessFrame) (found : Option ℕ) :
    Prop where
  found : found = some k
  short : process.frames.countP FrameEntry.assigned < cfg.framesPerProcess
  first : ∃ free, process.frames.find? FrameEntry.assigned = some free ∧
    (free.pageData = none ∨ ∀ entry ∈ process.frames, ¬ entry.Empty)

/-! ## The first entry with a frame -/

theorem findFirstFreeFrame_map_fst (process : ProcessFrame) :
    (findFirstFreeFrame process).map Prod.fst = process.frames.find? FrameEntry.assigned := by
  have hzip : process.frames = process.frames.zipIdx.map Prod.fst := by
    rw [List.zipIdx_map_fst]
  rw [findFirstFreeFrame]
  conv_rhs => rw [hzip, List.find?_map]
  rfl

theorem find?_of_findFirstFreeFrame {free : FrameEntry} {i : ℕ}
    (h : findFirstFreeFrame process = some (free, i)) :
    process.frames.find? FrameEntry.assigned = some free := by
  rw [← findFirstFreeFrame_map_fst, h]
  rfl

theorem exists_findFirstFreeFrame {free : FrameEntry}
    (h : process.frames.find? FrameEntry.assigned = some free) :
    ∃ i, findFirstFreeFrame process = some (free, i) := by
  rw [← findFirstFreeFrame_map_fst, Option.map_eq_some_iff] at h
  obtain ⟨⟨free, i⟩, hfree, rfl⟩ := h
  exact ⟨i, hfree⟩

/-- A fault in a list that is short of frames takes the first entry that has one. -/
theorem getFrameNumber_of_short (host : Host) (store : SwapStore Swap) (pid : Word)
    (hpage : m.page? id = some page) (habsent : page.present = false)
    (hprocess : m.processesFrames[k]? = some process) (hshort : hasFreeFrame cfg process = true)
    {free : FrameEntry} {i : ℕ} (hfree : findFirstFreeFrame process = some (free, i)) :
    m.getFrameNumber cfg host store id pid (some k) =
      some (m.assignPage cfg k i free.frame id, free.frame) := by
  simp [getFrameNumber, hpage, habsent, hprocess, hshort, hfree]

/-! ## Reachable states -/

/-- A fault of a process, in any state the memory module reaches, is served as it should be if and
only if `get_frame_number` happens to find the list of the process, the process has some of its
frames but not all of them, and its first frame is empty, or none is. -/
theorem faultServed_iff (hm : (memoryModule cfg host store swap).Reachable m)
    (hprocess : m.processesFrames[k]? = some process) (hpage : m.page? id = some page)
    (habsent : page.present = false) (pid : Word) (found : Option ℕ) :
    FaultServed cfg host store m k process id pid found ↔ FirstEmpty cfg k process found := by
  constructor
  · intro hserved
    obtain ⟨m', frame, hframe, entry, hentry, hassigned, hanswer⟩ := hserved.answered
    obtain ⟨a, ha⟩ := List.getElem?_of_mem hentry
    have hnonneg := (placed_of_reachable hm).nonneg hprocess hentry hassigned
    rcases getFrameNumber_cases hframe (fullEmpty_of_reachable hm) with
      ⟨page', hpage', hpresent, -, -⟩ | ⟨-, -, -, -, hnone⟩ |
      ⟨-, k', process', free, i, -, -, hfound, hprocess', hshort, hfree, hafter, hnumber⟩
    · rw [hpage, Option.some.injEq] at hpage'
      rw [hpage'] at habsent
      rw [habsent] at hpresent
      cases hpresent
    · omega
    obtain ⟨hi, -⟩ := getElem?_of_findFirstFreeFrame hfree
    -- The frame given is in one list only.
    obtain ⟨rfl, rfl⟩ := (tracked_of_reachable hm).entry_unique hprocess hprocess' ha hi
      (hanswer.trans hnumber) hnonneg
    obtain rfl : process = process' := Option.some.inj (hprocess.symm.trans hprocess')
    refine ⟨hfound, of_decide_eq_true hshort, free, find?_of_findFirstFreeFrame hfree, ?_⟩
    by_cases hempty : ∃ entry ∈ process.frames, entry.Empty
    · obtain ⟨b, empty, hb, ⟨hassigned', hnone⟩, hgiven⟩ := hserved.empty hempty
      rw [hframe, Option.some.injEq, Prod.mk.injEq] at hgiven
      have hnonneg' := (placed_of_reachable hm).nonneg hprocess (List.mem_of_getElem? hb)
        hassigned'
      obtain ⟨-, rfl⟩ := (tracked_of_reachable hm).entry_unique hprocess hprocess hb hi
        (hgiven.2.symm.trans hnumber) hnonneg'
      obtain rfl : empty = free := Option.some.inj (hb.symm.trans hi)
      exact .inl hnone
    · exact .inr fun entry hentry hnone => hempty ⟨entry, hentry, hnone⟩
  · rintro ⟨rfl, hshort, free, hfirst, hempty⟩
    obtain ⟨i, hfree⟩ := exists_findFirstFreeFrame hfirst
    obtain ⟨hi, hne⟩ := getElem?_of_findFirstFreeFrame hfree
    have hhas : hasFreeFrame cfg process = true := decide_eq_true hshort
    have hassigned : free.assigned = true := by simpa [FrameEntry.assigned] using hne
    have hframe := getFrameNumber_of_short host store pid hpage habsent hprocess hhas hfree
    refine ⟨?_, ?_, _, _, hframe, free, List.mem_of_getElem? hi, hassigned, rfl⟩
    · rintro ⟨entry, hentry, hnone⟩
      rcases hempty with hdata | hall
      · exact ⟨i, free, hi, ⟨hassigned, hdata⟩, hframe⟩
      · exact absurd hnone (hall entry hentry)
    · rintro ⟨k', process', hfound, hprocess', hfull⟩
      cases hfound
      rw [hprocess, Option.some.injEq] at hprocess'
      rw [hprocess', hfull] at hhas
      cases hhas

/-- The first fault of a process that got one of its two frames. -/
theorem faultServed_small : ∃ m process, (memoryModuleSmall 2).Reachable m ∧
    m.processesFrames[1]? = some process ∧ process.frames = [⟨2, none⟩] ∧
    FaultServed (.small 2) .direct (pageStore (.small 2)) m 1 process ⟨1, 0⟩ 2 (some 1) := by
  obtain ⟨m, hm, htest⟩ := Machine.exists_reachable_of_run (memoryModuleSmall 2)
    [.processNew 1 16, .processNew 2 16]
    (fun m => m.processesFrames[1]? = some ⟨[⟨2, none⟩], 0⟩ ∧
      m.page? ⟨1, 0⟩ = some ⟨-1, false, false, false, 0⟩) (by decide +kernel)
  obtain ⟨hprocess, hpage⟩ := of_decide_eq_true htest
  refine ⟨m, _, hm, hprocess, rfl, (faultServed_iff hm hprocess hpage rfl 2 (some 1)).2 ?_⟩
  exact ⟨rfl, by decide, ⟨2, none⟩, by decide, .inl rfl⟩

/-- The first fault of a process that got both its frames: both are empty, the module replaces a
page, and there is none. -/
theorem not_faultServed : ∃ m process, (memoryModuleSmall 2).Reachable m ∧
    m.processesFrames[0]? = some process ∧ process.frames = [⟨0, none⟩, ⟨1, none⟩] ∧
    m.getFrameNumber (.small 2) .direct (pageStore (.small 2)) ⟨0, 0⟩ 1 (some 0) = none ∧
    ¬ FaultServed (.small 2) .direct (pageStore (.small 2)) m 0 process ⟨0, 0⟩ 1 (some 0) := by
  obtain ⟨m, hm, htest⟩ := Machine.exists_reachable_of_run (memoryModuleSmall 2)
    [.processNew 1 16]
    (fun m => m.processesFrames[0]? = some ⟨[⟨0, none⟩, ⟨1, none⟩], 0⟩ ∧
      (m.getFrameNumber (.small 2) .direct (pageStore (.small 2)) ⟨0, 0⟩ 1 (some 0)).isNone)
    (by decide +kernel)
  obtain ⟨hprocess, hnone⟩ := of_decide_eq_true htest
  rw [Option.isNone_iff_eq_none] at hnone
  refine ⟨m, _, hm, hprocess, rfl, hnone, fun hserved => ?_⟩
  obtain ⟨m', frame, hframe, -⟩ := hserved.answered
  rw [hnone] at hframe
  cases hframe

end Memory
end SistemasOperativos
