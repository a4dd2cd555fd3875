import SistemasOperativos.Library.Tally
import SistemasOperativos.Memory.Handlers

/-!
# Who has a frame

The bitmap of frames and the frame lists of the processes agree: a bit is set exactly when some
entry of some list has the frame, and no frame is in two entries.  Page faults and replacements
change neither side.
-/

open Tally

namespace SistemasOperativos

/-! ## Bits -/

/-- The bitmap says that the frame is assigned. -/
def assignedBit (bitmap : List Bool) (frame : ℕ) : ℕ :=
  if bitmap[frame]? = some true then 1 else 0

theorem length_frameClearAssigned (bitmap : List Bool) (index : ℤ) :
    (frameClearAssigned bitmap index).length = bitmap.length := by
  unfold frameClearAssigned
  split <;> simp

theorem assignedBit_frameClearAssigned (bitmap : List Bool) (index : ℤ) (frame : ℕ) :
    assignedBit (frameClearAssigned bitmap index) frame =
      if index = frame then 0 else assignedBit bitmap frame := by
  unfold frameClearAssigned
  split
  · rename_i hindex
    simp only [assignedBit, List.getElem?_set]
    grind
  · rename_i hindex
    rw [if_neg (by omega)]

/-- Setting a clear bit sets that bit and no other. -/
theorem assignedBit_frameSetAssigned {bitmap : List Bool} {index : ℕ}
    (hclear : bitmap[index]? = some false) (frame : ℕ) :
    assignedBit (frameSetAssigned bitmap index) frame =
      assignedBit bitmap frame + if index = frame then 1 else 0 := by
  have hlt := (List.getElem?_eq_some_iff.1 hclear).1
  simp only [assignedBit, frameSetAssigned, List.getElem?_set]
  by_cases hframe : index = frame
  · rw [← hframe, hclear]
    simp [hlt]
  · simp [hframe]

/-- Releasing a list of frames clears their bits and no other. -/
theorem assignedBit_release (frames : List FrameEntry) (bitmap : List Bool) (frame : ℕ) :
    assignedBit (frames.foldl (fun bitmap entry => frameClearAssigned bitmap entry.frame) bitmap)
        frame =
      if (frame : ℤ) ∈ frames.map FrameEntry.frame then 0 else assignedBit bitmap frame := by
  induction frames generalizing bitmap with
  | nil => simp
  | cons entry frames ih =>
      rw [List.foldl_cons, ih, assignedBit_frameClearAssigned]
      simp only [List.map_cons, List.mem_cons]
      grind

theorem length_release (frames : List FrameEntry) (bitmap : List Bool) :
    (frames.foldl (fun bitmap entry => frameClearAssigned bitmap entry.frame) bitmap).length =
      bitmap.length := by
  induction frames generalizing bitmap with
  | nil => rfl
  | cons entry frames ih => rw [List.foldl_cons, ih, length_frameClearAssigned]

namespace Memory

variable {Swap : Type} {cfg : MemoryConfig} {host : Host} {store : SwapStore Swap}
  {m m' : Memory Swap}

/-! ## Entries with a frame -/

/-- The frames of each process, entry by entry. -/
def frameNumbers (m : Memory Swap) : List (List ℤ) :=
  m.processesFrames.map fun process => process.frames.map FrameEntry.frame

/-- The number of entries, over all processes, that have the frame. -/
def holders (m : Memory Swap) (frame : ℤ) : ℕ :=
  weigh (List.count frame) m.frameNumbers

/-- The entries with the frame and its bit agree. -/
structure Tracked (cfg : MemoryConfig) (m : Memory Swap) : Prop where
  length : m.framesBitmap.length = cfg.framesInMemory
  holders : ∀ frame : ℕ, m.holders frame = assignedBit m.framesBitmap frame

/-! ## Assignment -/

/-- The loop of `assign_process_frames` gives out frames whose bits it sets. -/
theorem assignFrames_counts (cfg : MemoryConfig) (n : ℕ) (bitmap : List Bool)
    (frames : List FrameEntry) :
    (assignFrames cfg n bitmap frames).1.length = bitmap.length ∧
      ∀ frame : ℕ, ((assignFrames cfg n bitmap frames).2.map FrameEntry.frame).count (frame : ℤ) +
          assignedBit bitmap frame =
        (frames.map FrameEntry.frame).count (frame : ℤ) +
          assignedBit (assignFrames cfg n bitmap frames).1 frame := by
  induction n generalizing bitmap frames with
  | zero => exact ⟨rfl, fun _ => rfl⟩
  | succ n ih =>
      unfold assignFrames
      split
      · rename_i index hfind
        obtain ⟨hlength, hcounts⟩ := ih (frameSetAssigned bitmap index)
          (frames ++ [⟨(index : ℤ), none⟩])
        refine ⟨by rw [hlength, frameSetAssigned, List.length_set], fun frame => ?_⟩
        have hclear : bitmap[index]? = some false := by
          simpa using List.find?_some hfind
        have hone : [(index : ℤ)].count (frame : ℤ) = if index = frame then 1 else 0 := by
          simp only [List.count_singleton, beq_iff_eq, Int.natCast_inj]
        have := hcounts frame
        rw [List.map_append, List.count_append, List.map_singleton, hone,
          assignedBit_frameSetAssigned hclear] at this
        omega
      · exact ih bitmap frames

/-- The frames `assign_process_frames` gives out. -/
theorem assignFrames_nonneg (n : ℕ) (bitmap : List Bool) (frames : List FrameEntry)
    (hframes : ∀ entry ∈ frames, 0 ≤ entry.frame) :
    ∀ entry ∈ (assignFrames cfg n bitmap frames).2, 0 ≤ entry.frame := by
  induction n generalizing bitmap frames with
  | zero => exact hframes
  | succ n ih =>
      unfold assignFrames
      split
      · rename_i index hfind
        refine ih _ _ fun entry hmem => ?_
        rcases List.mem_append.1 hmem with hmem | hmem
        · exact hframes entry hmem
        · obtain rfl := List.mem_singleton.1 hmem
          exact Int.natCast_nonneg index
      · exact ih bitmap frames hframes

theorem assignProcessFrames_tracked (hm : m.Tracked cfg) :
    (m.assignProcessFrames cfg).Tracked cfg := by
  obtain ⟨hlength, hcounts⟩ := assignFrames_counts cfg cfg.framesPerProcess
    m.framesBitmap []
  refine ⟨hlength.trans hm.length, fun frame => ?_⟩
  have hholders := hm.holders frame
  have hcount := hcounts frame
  simp only [Memory.holders, frameNumbers, assignProcessFrames, List.map_append, List.map_cons,
    List.map_nil, weigh_append, weigh_cons, weigh_nil, List.count_nil] at hholders hcount ⊢
  omega

/-! ## Release -/

theorem unassignProcessFrames_tracked {k : ℕ} (h : m.unassignProcessFrames k = some m')
    (hm : m.Tracked cfg) : m'.Tracked cfg := by
  unfold unassignProcessFrames at h
  split at h
  · cases h
  rename_i process hprocess
  cases h
  refine ⟨(length_release _ _).trans hm.length, fun frame => ?_⟩
  have hholders := hm.holders frame
  have hlist : m.frameNumbers[k]? = some (process.frames.map FrameEntry.frame) := by
    simp [frameNumbers, hprocess]
  have hreleased : (process.frames.map fun _ => (-1 : ℤ)).count (frame : ℤ) = 0 := by
    refine List.count_eq_zero.2 fun hmem => ?_
    obtain ⟨-, -, heq⟩ := List.mem_map.1 hmem
    omega
  have hset := weigh_set (w := List.count (frame : ℤ)) (process.frames.map fun _ => (-1 : ℤ)) hlist
  rw [hreleased] at hset
  have hbit := assignedBit_release process.frames m.framesBitmap frame
  have hle : assignedBit m.framesBitmap frame ≤ 1 := by
    unfold assignedBit
    split <;> omega
  simp only [Memory.holders, frameNumbers, List.map_set, List.map_map, Function.comp_def]
    at hholders hset hbit ⊢
  by_cases hmem : (frame : ℤ) ∈ process.frames.map FrameEntry.frame
  · have hpos := List.count_pos_iff.2 hmem
    rw [hbit, if_pos hmem]
    omega
  · have hzero := List.count_eq_zero.2 hmem
    rw [hbit, if_neg hmem]
    omega

/-! ## Everything else -/

/-- The two sides of the agreement. -/
def frameState (m : Memory Swap) : List Bool × List (List ℤ) :=
  (m.framesBitmap, m.frameNumbers)

theorem Tracked.of_frameState (hm : m.Tracked cfg) (h : m'.frameState = m.frameState) :
    m'.Tracked cfg := by
  obtain ⟨hbitmap, hnumbers⟩ := Prod.mk.injEq .. ▸ h
  refine ⟨hbitmap ▸ hm.length, fun frame => ?_⟩
  rw [Memory.holders, hnumbers, hbitmap]
  exact hm.holders frame

/-- An assignment that leaves what `g` reads alone. -/
theorem map_modify_of_eq {α β : Type*} {f : α → α} {g : α → β} (hfg : ∀ a, g (f a) = g a)
    (l : List α) (i : ℕ) : (l.modify i f).map g = l.map g := by
  refine List.ext_getElem? fun j => ?_
  rw [List.getElem?_map, List.getElem?_map, List.getElem?_modify]
  split <;> cases l[j]? <;> simp [hfg]

@[simp] theorem frameState_modifyPage (id : PageId) (f : PageEntry → PageEntry) :
    (m.modifyPage id f).frameState = m.frameState := rfl

@[simp] theorem frameState_history (events : List PageEvent) :
    { m with history := events }.frameState = m.frameState := rfl

theorem frameState_modifyFrame (k i : ℕ) {f : FrameEntry → FrameEntry}
    (hf : ∀ entry, (f entry).frame = entry.frame) :
    (m.modifyFrame k i f).frameState = m.frameState := by
  simp only [frameState, frameNumbers, modifyFrame]
  rw [map_modify_of_eq]
  exact fun process => map_modify_of_eq hf process.frames i

@[simp] theorem frameState_advanceClockHand (k : ℕ) :
    (m.advanceClockHand cfg k).frameState = m.frameState := by
  simp only [frameState, frameNumbers, advanceClockHand]
  rw [map_modify_of_eq]
  exact fun _ => rfl

theorem saveSwap_frameState {frame : ℤ} {page : ℕ} {pid : Word}
    (h : m.saveSwap cfg host store frame page pid = some m') : m'.frameState = m.frameState := by
  unfold saveSwap at h
  split at h <;> cases h
  rfl

theorem writeBytes_frameState {start : ℤ} {data : Bytes} (h : m.writeBytes start data = some m') :
    m'.frameState = m.frameState := by
  obtain ⟨memory, rfl, -⟩ := writeBytes_eq_some h
  rfl

theorem evict_frameState {frame : ℤ} {old : PageId} {page : PageEntry} {pid : Word}
    (h : m.evict cfg host store frame old page pid = some m') : m'.frameState = m.frameState := by
  unfold evict at h
  obtain ⟨saved, hsaved, rfl⟩ := Option.map_eq_some_iff.1 h
  rw [frameState_history, frameState_modifyPage]
  split at hsaved
  · obtain ⟨written, hwritten, rfl⟩ := Option.map_eq_some_iff.1 hsaved
    rw [frameState_modifyPage]
    exact saveSwap_frameState hwritten
  · cases hsaved
    rfl

theorem replace_frameState {k i : ℕ} {frame : ℤ} {old new : PageId} {oldPage newPage : PageEntry}
    {pid : Word} (h : m.replace cfg host store k i frame old oldPage new newPage pid = some m') :
    m'.frameState = m.frameState := by
  unfold replace at h
  split at h
  · cases h
  rename_i evicted hevicted
  split at h <;> cases h
  rename_i loaded hloaded
  rw [frameState_history, frameState_modifyFrame, frameState_modifyPage,
    writeBytes_frameState hloaded, evict_frameState hevicted]
  exact fun _ => rfl

theorem clockVisit_frameState {k j : ℕ} {checkModified : Bool} {new : PageId}
    {newPage : PageEntry} {pid : Word} {frame : Option ℤ}
    (h : m.clockVisit cfg host store k checkModified new newPage pid j = some (m', frame)) :
    m'.frameState = m.frameState := by
  unfold clockVisit at h
  repeat' split at h
  all_goals cases h
  · rename_i hreplace
    rw [frameState_advanceClockHand, replace_frameState hreplace]
  · simp
  · simp

theorem clockTurns_frameState {k : ℕ} {checkModified : Bool} {new : PageId} {newPage : PageEntry}
    {pid : Word} {frame : ℤ} {turns : List ℕ}
    (h : m.clockTurns cfg host store k checkModified new newPage pid turns = some (m', frame)) :
    m'.frameState = m.frameState := by
  induction turns generalizing m with
  | nil => cases h; rfl
  | cons j rest ih =>
      unfold clockTurns at h
      split at h
      · cases h
      · rename_i hvisit
        cases h
        exact clockVisit_frameState hvisit
      · rename_i hvisit
        exact (ih h).trans (clockVisit_frameState hvisit)

theorem replaceAlgorithm_frameState {k : ℕ} {new : PageId} {newPage : PageEntry} {pid : Word}
    {frame : ℤ} (h : m.replaceAlgorithm cfg host store k new newPage pid = some (m', frame)) :
    m'.frameState = m.frameState := by
  unfold replaceAlgorithm at h
  split at h
  · exact clockTurns_frameState h
  · split at h
    · cases h
    · rename_i hfirst
      split at h
      · cases h
        exact clockTurns_frameState hfirst
      · exact (clockTurns_frameState h).trans (clockTurns_frameState hfirst)

theorem getFrameNumber_frameState {id : PageId} {pid : Word} {found : Option ℕ} {frame : ℤ}
    (h : m.getFrameNumber cfg host store id pid found = some (m', frame)) :
    m'.frameState = m.frameState := by
  unfold getFrameNumber at h
  repeat' split at h
  all_goals try cases h
  · rfl
  · rfl
  · simp only [assignPage]
    rw [frameState_history, frameState_modifyFrame, frameState_modifyPage]
    exact fun _ => rfl
  · exact replaceAlgorithm_frameState h

/-! ## The handlers -/

theorem addLevel2Tables_frameState (pid : Word) (n : ℕ) (entries : List ℕ) :
    (addLevel2Tables cfg pid n entries m).2.frameState = m.frameState := by
  induction n generalizing entries m with
  | zero => rfl
  | succ n ih => exact ih _

theorem processNew_tracked {pid processSize : Word} (hm : m.Tracked cfg) :
    (m.processNew cfg store pid processSize).1.Tracked cfg := by
  unfold processNew
  split
  · exact hm
  · have hinit : (m.pageTableInit cfg pid processSize).Tracked cfg :=
      hm.of_frameState (addLevel2Tables_frameState pid _ [])
    exact (assignProcessFrames_tracked hinit).of_frameState rfl

/-- An iteration of `process_suspend` changes frames by releasing a list only. -/
theorem suspendEntry_frameState {pid : Word} {k : ℕ} {id : PageId}
    (h : m.suspendEntry cfg host store pid k id = some m') :
    ∃ saved : Memory Swap, saved.frameState = m.frameState ∧
      saved.processesFrames = m.processesFrames ∧ saved.unassignProcessFrames k = some m' := by
  unfold suspendEntry at h
  split at h
  · cases h
  rename_i entry hentry
  simp only at h
  split at h
  · cases h
  rename_i saved hsaved
  have hsame : saved.framesBitmap = m.framesBitmap ∧
      saved.processesFrames = m.processesFrames := by
    split at hsaved
    · obtain ⟨written, hwritten, rfl⟩ := Option.map_eq_some_iff.1 hsaved
      unfold saveSwap at hwritten
      split at hwritten <;> cases hwritten
      exact ⟨rfl, rfl⟩
    · cases hsaved
      exact ⟨rfl, rfl⟩
  refine ⟨_, ?_, ?_, h⟩
  · rw [frameState_history, frameState_modifyPage, frameState, frameState, frameNumbers,
      frameNumbers, hsame.1, hsame.2]
  · exact hsame.2

theorem suspendEntry_tracked {pid : Word} {k : ℕ} {id : PageId}
    (h : m.suspendEntry cfg host store pid k id = some m') (hm : m.Tracked cfg) :
    m'.Tracked cfg := by
  obtain ⟨saved, hstate, -, hreleased⟩ := suspendEntry_frameState h
  exact unassignProcessFrames_tracked hreleased (hm.of_frameState hstate)

theorem handle_tracked {action : MemoryAction} {answer : Option MemoryAnswer}
    (h : m.handle cfg host store action = some (m', answer)) (hm : m.Tracked cfg) :
    m'.Tracked cfg := by
  refine handle_elim h ?create ?suspend ?exit ?access (fun _ _ => hm.of_frameState rfl) hm
  case create =>
    intro pid processSize _
    exact processNew_tracked hm
  case suspend =>
    intro pid pt1Index processFramesIndex m' _ h
    exact processSuspend_invariant h (fun _ _ _ hm h => suspendEntry_tracked h hm) hm
  case exit =>
    intro pid pt1Index processFramesIndex m' _ h
    rcases processExit_eq_some h with rfl | ⟨released, hreleased, rfl⟩
    · exact hm
    · exact (unassignProcessFrames_tracked hreleased hm).of_frameState rfl
  case access =>
    intro pid pt2Index entryIndex processFramesIndex found m' frame _ hframe
    exact hm.of_frameState (getFrameNumber_frameState hframe)

theorem start_tracked (swap : Swap) : (start cfg swap).Tracked cfg := by
  refine ⟨by simp [start], fun frame => ?_⟩
  simp only [Memory.holders, frameNumbers, start, assignedBit, List.map_nil, weigh_nil,
    List.getElem?_replicate]
  split <;> simp

/-! ## Reachable states -/

theorem tracked_of_reachable {swap : Swap} (hm : (memoryModule cfg host store swap).Reachable m) :
    m.Tracked cfg := by
  refine hm.invariant (start_tracked swap) fun action m m' _ hm h => ?_
  obtain ⟨⟨m₁, answer⟩, hhandle, rfl⟩ := Option.map_eq_some_iff.1 h
  exact handle_tracked hhandle hm

/-- A frame is in an entry of some process. -/
def Holds (m : Memory Swap) (frame : ℕ) : Prop :=
  ∃ process ∈ m.processesFrames, ∃ entry ∈ process.frames, entry.frame = frame

theorem holds_iff {frame : ℕ} : m.Holds frame ↔ 0 < m.holders frame := by
  have hpos : 0 < m.holders frame ↔ ¬ ∀ numbers ∈ m.frameNumbers, numbers.count (frame : ℤ) = 0 := by
    rw [Memory.holders, ← weigh_eq_zero]
    omega
  simp only [hpos, Holds, frameNumbers, not_forall, List.count_eq_zero,
    List.mem_map, not_not]
  grind

/-- Every frame is in one entry at most, over the lists of all processes; the frames in entries
are frames of the memory; and their bits, and no others, are set. -/
theorem frames_tracked {swap : Swap} (hm : (memoryModule cfg host store swap).Reachable m)
    (frame : ℕ) :
    weigh (fun process => process.frames.countP fun entry => entry.frame = (frame : ℤ))
        m.processesFrames ≤ 1 ∧
      (m.Holds frame → frame < cfg.framesInMemory) ∧
      (m.framesBitmap[frame]? = some true ↔ m.Holds frame) := by
  have htracked := tracked_of_reachable hm
  have hholders := htracked.holders frame
  have hcount : weigh (fun process => process.frames.countP fun entry => entry.frame = (frame : ℤ))
      m.processesFrames = m.holders frame := by
    simp only [Memory.holders, frameNumbers, weigh, List.map_map, Function.comp_def, List.count,
      List.countP_map]
    rfl
  have hbit : m.framesBitmap[frame]? = some true ↔ m.Holds frame := by
    rw [holds_iff, hholders]
    unfold assignedBit
    split <;> simp [*]
  refine ⟨?_, fun hholds => ?_, hbit⟩
  · rw [hcount, hholders]
    unfold assignedBit
    split <;> omega
  · exact htracked.length ▸ (List.getElem?_eq_some_iff.1 (hbit.2 hholds)).1

theorem Tracked.holders_le_one (hm : m.Tracked cfg) (frame : ℕ) : m.holders frame ≤ 1 := by
  rw [hm.holders frame, assignedBit]
  split <;> omega

/-- A frame is in one entry of a list. -/
theorem Tracked.tally_le_one (hm : m.Tracked cfg) {k : ℕ} {process : ProcessFrame}
    (hk : m.processesFrames[k]? = some process) (frame : ℕ) :
    tally FrameEntry.frame (frame : ℤ) process.frames ≤ 1 := by
  have hlist : m.frameNumbers[k]? = some (process.frames.map FrameEntry.frame) := by
    simp [frameNumbers, hk]
  have herase := weigh_eraseIdx (w := List.count (frame : ℤ)) hlist
  rw [tally_eq_count]
  exact Nat.le_trans (Nat.le.intro ((Nat.add_comm _ _).trans herase)) (hm.holders_le_one frame)

/-- A frame is in one entry. -/
theorem Tracked.entry_unique (hm : m.Tracked cfg) {k k' i i' : ℕ} {process process' : ProcessFrame}
    {entry entry' : FrameEntry} (hk : m.processesFrames[k]? = some process)
    (hk' : m.processesFrames[k']? = some process') (hi : process.frames[i]? = some entry)
    (hi' : process'.frames[i']? = some entry') (hframe : entry.frame = entry'.frame)
    (hnonneg : 0 ≤ entry.frame) : k = k' ∧ i = i' := by
  obtain ⟨frame, hnat⟩ := Int.eq_ofNat_of_zero_le hnonneg
  have hlist : m.frameNumbers[k]? = some (process.frames.map FrameEntry.frame) := by
    simp [frameNumbers, hk]
  have hlist' : m.frameNumbers[k']? = some (process'.frames.map FrameEntry.frame) := by
    simp [frameNumbers, hk']
  have hmem : (frame : ℤ) ∈ process.frames.map FrameEntry.frame :=
    List.mem_map.2 ⟨entry, List.mem_of_getElem? hi, hnat⟩
  have hmem' : (frame : ℤ) ∈ process'.frames.map FrameEntry.frame :=
    List.mem_map.2 ⟨entry', List.mem_of_getElem? hi', hframe ▸ hnat⟩
  obtain rfl : k = k' := eq_of_weigh_le_one (hm.holders_le_one frame) hlist hlist'
    (List.count_pos_iff.2 hmem) (List.count_pos_iff.2 hmem')
  obtain rfl : process = process' := Option.some.inj (hk.symm.trans hk')
  refine ⟨rfl, ?_⟩
  refine eq_of_weigh_le_one (hm.tally_le_one hk frame) hi hi' ?_ ?_
  · rw [one, if_pos hnat]
    exact Nat.one_pos
  · rw [one, if_pos (hframe ▸ hnat)]
    exact Nat.one_pos

/-! ## Entries without a frame -/

/-- An entry has a frame or -1. -/
def Placed (m : Memory Swap) : Prop :=
  ∀ numbers ∈ m.frameNumbers, ∀ frame ∈ numbers, -1 ≤ frame

/-- An entry that has a frame has one of the memory. -/
theorem Placed.nonneg (hm : m.Placed) {k : ℕ} {process : ProcessFrame}
    (hprocess : m.processesFrames[k]? = some process) {entry : FrameEntry}
    (hentry : entry ∈ process.frames) (hassigned : entry.assigned = true) : 0 ≤ entry.frame := by
  have hge := hm _ (List.mem_map_of_mem (List.mem_of_getElem? hprocess)) _
    (List.mem_map_of_mem hentry)
  have hne : entry.frame ≠ -1 := by simpa [FrameEntry.assigned] using hassigned
  omega

theorem Placed.of_frameState (hm : m.Placed) (h : m'.frameState = m.frameState) : m'.Placed := by
  have hnumbers : m'.frameNumbers = m.frameNumbers := congrArg Prod.snd h
  rw [Placed, hnumbers]
  exact hm

theorem unassignProcessFrames_placed {k : ℕ} (h : m.unassignProcessFrames k = some m')
    (hm : m.Placed) : m'.Placed := by
  unfold unassignProcessFrames at h
  split at h <;> cases h
  intro numbers hnumbers frame hframe
  simp only [frameNumbers, List.map_set] at hnumbers
  rcases List.mem_or_eq_of_mem_set hnumbers with hold | rfl
  · exact hm numbers hold frame hframe
  · simp only [List.map_map, Function.comp_def, List.mem_map] at hframe
    obtain ⟨-, -, rfl⟩ := hframe
    exact Int.le_refl _

theorem handle_placed {action : MemoryAction} {answer : Option MemoryAnswer}
    (h : m.handle cfg host store action = some (m', answer)) (hm : m.Placed) : m'.Placed := by
  refine handle_elim h ?create ?suspend ?exit ?access (fun _ _ => hm.of_frameState rfl) hm
  case create =>
    intro pid processSize _
    unfold processNew
    split
    · exact hm
    have hinit : (m.pageTableInit cfg pid processSize).Placed :=
      hm.of_frameState (addLevel2Tables_frameState pid _ [])
    intro numbers hnumbers frame hframe
    simp only [frameNumbers, assignProcessFrames, List.map_append, List.mem_append, List.map_cons,
      List.map_nil, List.mem_singleton] at hnumbers
    rcases hnumbers with hold | rfl
    · exact hinit numbers hold frame hframe
    · obtain ⟨entry, hentry, rfl⟩ := List.mem_map.1 hframe
      have hnonneg := assignFrames_nonneg _ _ [] (by simp) entry hentry
      omega
  case suspend =>
    intro pid pt1Index processFramesIndex m' _ h
    refine processSuspend_invariant h (fun m m' id hm h => ?_) hm
    obtain ⟨released, hstate, -, hreleased⟩ := suspendEntry_frameState h
    exact unassignProcessFrames_placed hreleased (hm.of_frameState hstate)
  case exit =>
    intro pid pt1Index processFramesIndex m' _ h
    rcases processExit_eq_some h with rfl | ⟨released, hreleased, rfl⟩
    · exact hm
    · exact (unassignProcessFrames_placed hreleased hm).of_frameState rfl
  case access =>
    intro pid pt2Index entryIndex processFramesIndex found m' frame _ hframe
    exact hm.of_frameState (getFrameNumber_frameState hframe)

theorem placed_of_reachable {swap : Swap} (hm : (memoryModule cfg host store swap).Reachable m) :
    m.Placed := by
  refine hm.invariant (by simp [Placed, memoryModule, start, frameNumbers])
    fun action m m' _ hm h => ?_
  obtain ⟨⟨m₁, answer⟩, hhandle, rfl⟩ := Option.map_eq_some_iff.1 h
  exact handle_placed hhandle hm

/-- Of two processes the second gets one frame only; the first is then suspended. -/
theorem frames_tracked_small : ∃ m, (memoryModuleSmall 2).Reachable m ∧
    m.framesBitmap = [false, false, true] ∧ (m.framesBitmap[2]? = some true ↔ m.Holds 2) := by
  obtain ⟨m, hm, htest⟩ := Machine.exists_reachable_of_run (memoryModuleSmall 2)
    [.processNew 1 32, .processNew 2 16, .accessLvl2Table 2 2 0 1 (some 1), .processSuspend 1 0 0]
    (fun m => m.framesBitmap = [false, false, true]) (by decide +kernel)
  exact ⟨m, hm, by simpa using htest, (frames_tracked hm 2).2.2⟩

end Memory
end SistemasOperativos
