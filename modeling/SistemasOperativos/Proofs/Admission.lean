import SistemasOperativos.Memory.Handlers

/-!
# Who is admitted

`assign_process_frames` takes the lowest unassigned frame once for each frame the process should
get, and goes on without one where there is none: a process gets what is left, and is told that
its memory is ready.
-/

namespace SistemasOperativos

/-! ## Unassigned frames -/

/-- The unassigned frames, the lowest first. -/
def freeFrames (cfg : MemoryConfig) (bitmap : List Bool) : List ℕ :=
  (List.range cfg.framesInMemory).filter fun i => bitmap[i]? == some false

variable {cfg : MemoryConfig} {bitmap : List Bool}

theorem mem_freeFrames {frame : ℕ} : frame ∈ freeFrames cfg bitmap ↔
    frame < cfg.framesInMemory ∧ bitmap[frame]? = some false := by
  simp [freeFrames]

theorem freeFrames_nodup : (freeFrames cfg bitmap).Nodup :=
  List.nodup_range.filter _

theorem findFirstUnassignedFrame_eq :
    findFirstUnassignedFrame cfg bitmap = (freeFrames cfg bitmap).head? := by
  rw [freeFrames, List.head?_filter, findFirstUnassignedFrame]

/-- Assigning a frame takes it from the unassigned ones. -/
theorem freeFrames_frameSetAssigned (index : ℕ) :
    freeFrames cfg (frameSetAssigned bitmap index) =
      (freeFrames cfg bitmap).filter (· ≠ index) := by
  rw [freeFrames, freeFrames, List.filter_filter]
  congr 1
  funext i
  rw [frameSetAssigned, List.getElem?_set]
  by_cases h : index = i
  · subst h
    by_cases hlt : index < bitmap.length <;> simp [hlt]
  · simp [h, Ne.symm h]

/-- The unassigned frames after the lowest one is assigned. -/
theorem freeFrames_of_cons {index : ℕ} {rest : List ℕ} (h : freeFrames cfg bitmap = index :: rest) :
    freeFrames cfg (frameSetAssigned bitmap index) = rest := by
  have hnodup : (index :: rest).Nodup := h ▸ freeFrames_nodup
  have hne : ∀ frame ∈ rest, frame ≠ index := by
    rintro frame hframe rfl
    exact (List.nodup_cons.1 hnodup).1 hframe
  rw [freeFrames_frameSetAssigned, h, List.filter_cons, if_neg (by simp),
    List.filter_eq_self.2 (by simpa using hne)]

/-- The frames that `assign_process_frames` takes: the lowest unassigned ones. -/
def framesTaken (cfg : MemoryConfig) (bitmap : List Bool) : List ℕ :=
  (freeFrames cfg bitmap).take cfg.framesPerProcess

/-- The loop takes unassigned frames from the lowest on, as long as there are any. -/
theorem assignFrames_eq (n : ℕ) (bitmap : List Bool) (frames : List FrameEntry) :
    assignFrames cfg n bitmap frames =
      (((freeFrames cfg bitmap).take n).foldl frameSetAssigned bitmap,
        frames ++ ((freeFrames cfg bitmap).take n).map fun frame : ℕ => ⟨frame, none⟩) := by
  induction n generalizing bitmap frames with
  | zero => simp [assignFrames]
  | succ n ih =>
      rw [assignFrames, findFirstUnassignedFrame_eq]
      cases hfree : freeFrames cfg bitmap with
      | nil =>
          simp only [List.head?_nil, List.take_nil]
          rw [ih, hfree, List.take_nil]
      | cons index rest =>
          simp only [List.head?_cons, List.take_succ_cons]
          rw [ih, freeFrames_of_cons hfree]
          simp

/-- Assigning frames sets their bits and no other. -/
theorem getElem?_foldl_frameSetAssigned (frames : List ℕ) (bitmap : List Bool) (frame : ℕ) :
    (frames.foldl frameSetAssigned bitmap)[frame]? =
      if frame ∈ frames then bitmap[frame]?.map fun _ => true else bitmap[frame]? := by
  induction frames generalizing bitmap with
  | nil => simp
  | cons index frames ih =>
      rw [List.foldl_cons, ih, frameSetAssigned, List.getElem?_set]
      by_cases h : index = frame
      · subst h
        by_cases hlt : index < bitmap.length <;> simp [hlt]
      · simp [h, Ne.symm h]

namespace Memory

variable {Swap : Type} {m m' : Memory Swap} {pid : Word} {answer : Option MemoryAnswer}

/-- The process has `framesPerProcess` frames, the lowest unassigned ones and no two the same, in
a new list, their bits are set, and it is told that its memory is ready. -/
structure Admitted (cfg : MemoryConfig) (pid : Word) (m m' : Memory Swap)
    (answer : Option MemoryAnswer) : Prop where
  count : (framesTaken cfg m.framesBitmap).length = cfg.framesPerProcess
  distinct : (framesTaken cfg m.framesBitmap).Nodup
  frames : m'.processesFrames = m.processesFrames ++
    [⟨(framesTaken cfg m.framesBitmap).map fun frame : ℕ => ⟨frame, none⟩, 0⟩]
  bits : ∀ frame, m'.framesBitmap[frame]? =
    if frame ∈ framesTaken cfg m.framesBitmap then some true else m.framesBitmap[frame]?
  answered : answer = some (.processMemoryReady pid (BitVec.ofNat 32 m.level1Tables.length)
    (BitVec.ofNat 32 m.processesFrames.length))

/-- No process is told that its memory is ready, and frames and tables are as they were. -/
structure Refused (m m' : Memory Swap) (answer : Option MemoryAnswer) : Prop where
  bitmap : m'.framesBitmap = m.framesBitmap
  processesFrames : m'.processesFrames = m.processesFrames
  level1Tables : m'.level1Tables = m.level1Tables
  level2Tables : m'.level2Tables = m.level2Tables
  answered : ∀ pid pt1Index processFramesIndex,
    answer ≠ some (.processMemoryReady pid pt1Index processFramesIndex)

/-- A process is admitted where enough frames are unassigned, and refused otherwise.  A request
with pid 0 names no process. -/
def AllOrNothing (cfg : MemoryConfig) (pid : Word) (m m' : Memory Swap)
    (answer : Option MemoryAnswer) : Prop :=
  if pid ≠ 0 ∧ cfg.framesPerProcess ≤ (freeFrames cfg m.framesBitmap).length then
    Admitted cfg pid m m' answer
  else Refused m m' answer

/-- What `process_new` does to the bitmap and the frame lists, whatever is unassigned. -/
theorem processNew_frames (cfg : MemoryConfig) (store : SwapStore Swap) (m : Memory Swap)
    (processSize : Word) (hpid : pid ≠ 0) :
    (m.processNew cfg store pid processSize).1.framesBitmap =
        (framesTaken cfg m.framesBitmap).foldl frameSetAssigned m.framesBitmap ∧
      (m.processNew cfg store pid processSize).1.processesFrames = m.processesFrames ++
        [⟨(framesTaken cfg m.framesBitmap).map fun frame : ℕ => ⟨frame, none⟩, 0⟩] := by
  have htables : ∀ n entries (m : Memory Swap),
      (addLevel2Tables cfg pid n entries m).2.framesBitmap = m.framesBitmap ∧
        (addLevel2Tables cfg pid n entries m).2.processesFrames = m.processesFrames := by
    intro n
    induction n with
    | zero => exact fun _ _ => ⟨rfl, rfl⟩
    | succ n ih => exact fun entries m => ih _ _
  obtain ⟨hbitmap, hlists⟩ := htables (level2PagesRequired cfg processSize) [] m
  simp only [processNew, if_neg hpid, assignProcessFrames, pageTableInit, hbitmap, hlists,
    assignFrames_eq, List.nil_append, framesTaken, and_self]

/-- `process_new` is all or nothing exactly if enough frames are unassigned, or the pid is 0. -/
theorem allOrNothing_iff (cfg : MemoryConfig) (store : SwapStore Swap) (m : Memory Swap)
    (pid processSize : Word) :
    AllOrNothing cfg pid m (m.processNew cfg store pid processSize).1
        (m.processNew cfg store pid processSize).2 ↔
      pid = 0 ∨ cfg.framesPerProcess ≤ (freeFrames cfg m.framesBitmap).length := by
  rw [AllOrNothing]
  by_cases hpid : pid = 0
  · have hnothing : m.processNew cfg store pid processSize = (m, none) := if_pos hpid
    rw [if_neg (fun h => h.1 hpid), hnothing]
    refine iff_of_true ⟨rfl, rfl, rfl, rfl, ?_⟩ (.inl hpid)
    intro pid pt1Index processFramesIndex heq
    cases heq
  obtain ⟨hbitmap, hlists⟩ := processNew_frames cfg store m processSize hpid
  have hanswer : (m.processNew cfg store pid processSize).2 =
      some (.processMemoryReady pid (BitVec.ofNat 32 m.level1Tables.length)
        (BitVec.ofNat 32 m.processesFrames.length)) := by
    rw [processNew, if_neg hpid]
  by_cases henough : cfg.framesPerProcess ≤ (freeFrames cfg m.framesBitmap).length
  · rw [if_pos ⟨hpid, henough⟩]
    refine iff_of_true ⟨?_, ?_, hlists, fun frame => ?_, hanswer⟩ (.inr henough)
    · exact List.length_take_of_le henough
    · exact freeFrames_nodup.sublist (List.take_sublist _ _)
    · rw [hbitmap, getElem?_foldl_frameSetAssigned]
      split
      · rename_i htaken
        rw [(mem_freeFrames.1 (List.mem_of_mem_take htaken)).2]
        rfl
      · rfl
  · rw [if_neg fun h => henough h.2]
    refine iff_of_false (fun hrefused => ?_) (not_or.2 ⟨hpid, henough⟩)
    exact hrefused.answered _ _ _ hanswer

/-- Three frames, two for each process: the second process is admitted with one. -/
theorem not_allOrNothing : ∃ m, (memoryModuleSmall 2).Reachable m ∧
    m.framesBitmap = [true, true, false] ∧
    ((m.processNew (.small 2) (pageStore (.small 2)) 2 16).1.processesFrames.map fun process =>
      process.frames.map FrameEntry.frame) = [[0, 1], [2]] ∧
    (m.processNew (.small 2) (pageStore (.small 2)) 2 16).2 = some (.processMemoryReady 2 1 1) ∧
    ¬ AllOrNothing (.small 2) 2 m (m.processNew (.small 2) (pageStore (.small 2)) 2 16).1
      (m.processNew (.small 2) (pageStore (.small 2)) 2 16).2 := by
  obtain ⟨m, hm, htest⟩ := Machine.exists_reachable_of_run (memoryModuleSmall 2) [.processNew 1 16]
    (fun m => m.framesBitmap = [true, true, false] ∧
      ((m.processNew (.small 2) (pageStore (.small 2)) 2 16).1.processesFrames.map fun process =>
        process.frames.map FrameEntry.frame) = [[0, 1], [2]] ∧
      (m.processNew (.small 2) (pageStore (.small 2)) 2 16).2 = some (.processMemoryReady 2 1 1))
    (by decide +kernel)
  obtain ⟨hbitmap, hframes, hanswer⟩ := of_decide_eq_true htest
  refine ⟨m, hm, hbitmap, hframes, hanswer, fun hall => ?_⟩
  rw [AllOrNothing, hbitmap, if_neg (by decide)] at hall
  exact hall.answered _ _ _ hanswer

end Memory
end SistemasOperativos
