import SistemasOperativos.Proofs.FrameOwnership
import SistemasOperativos.System.WithMemory

/-!
# What the requests do to the frame lists

`process_new` appends a list in which every entry has a frame, `process_suspend` and
`process_exit` empty the list they name, and no other request changes the frames in a list.
-/

namespace SistemasOperativos

namespace Memory

variable {Swap : Type} {cfg : MemoryConfig} {host : Host} {store : SwapStore Swap}
  {m m' : Memory Swap} {k n : ℕ}

/-- Every entry of frame list `k` has a frame, and there are `n`. -/
def Full (m : Memory Swap) (k n : ℕ) : Prop :=
  ∃ numbers, m.frameNumbers[k]? = some numbers ∧ numbers.length = n ∧
    ∀ frame ∈ numbers, 0 ≤ frame

/-- The frame lists are the same, except for list `k`. -/
structure SameBut (k : ℕ) (m m' : Memory Swap) : Prop where
  length : m'.frameNumbers.length = m.frameNumbers.length
  others : ∀ j, j ≠ k → m'.frameNumbers[j]? = m.frameNumbers[j]?

theorem SameBut.trans {m'' : Memory Swap} (h : SameBut k m m') (h' : SameBut k m' m'') :
    SameBut k m m'' :=
  ⟨h'.length.trans h.length, fun j hj => (h'.others j hj).trans (h.others j hj)⟩

theorem SameBut.of_frameState (h : m'.frameState = m.frameState) : SameBut k m m' := by
  obtain ⟨-, hnumbers⟩ := Prod.mk.injEq .. ▸ h
  exact ⟨by rw [hnumbers], fun j _ => by rw [hnumbers]⟩

theorem SameBut.full {j : ℕ} (h : SameBut k m m') (hj : j ≠ k) (hm : m.Full j n) : m'.Full j n := by
  obtain ⟨numbers, hnumbers, hlength, hframes⟩ := hm
  exact ⟨numbers, (h.others j hj).trans hnumbers, hlength, hframes⟩

theorem unassignProcessFrames_sameBut (h : m.unassignProcessFrames k = some m') :
    SameBut k m m' := by
  unfold unassignProcessFrames at h
  split at h <;> cases h
  refine ⟨by simp [frameNumbers], fun j hj => ?_⟩
  simp [frameNumbers, Ne.symm hj]

theorem suspendEntry_sameBut {pid : Word} {id : PageId}
    (h : m.suspendEntry cfg host store pid k id = some m') : SameBut k m m' := by
  obtain ⟨saved, hstate, -, hreleased⟩ := suspendEntry_frameState h
  exact (SameBut.of_frameState hstate).trans (unassignProcessFrames_sameBut hreleased)

theorem suspendTable_sameBut {pid : Word} {level1Entry : ℕ}
    (h : m.suspendTable cfg host store pid k level1Entry = some m') : SameBut k m m' := by
  unfold suspendTable at h
  repeat' split at h
  · cases h
  · cases h
  · refine Machine.foldlM_invariant (fun s a s' hs h => ?_) ⟨rfl, fun _ _ => rfl⟩ h
    exact SameBut.trans hs (suspendEntry_sameBut h)

theorem processSuspend_sameBut {pid pt1Index processFramesIndex : Word}
    {answer : Option MemoryAnswer}
    (h : m.processSuspend cfg host store pid pt1Index processFramesIndex = some (m', answer)) :
    SameBut processFramesIndex.toNat m m' := by
  unfold processSuspend at h
  repeat' split at h
  · cases h
    exact ⟨rfl, fun _ _ => rfl⟩
  · cases h
  · obtain ⟨suspended, hsuspended, heq⟩ := Option.map_eq_some_iff.1 h
    cases heq
    refine Machine.foldlM_invariant (fun s a s' hs h => ?_) ⟨rfl, fun _ _ => rfl⟩ hsuspended
    exact SameBut.trans hs (suspendTable_sameBut h)

theorem processExit_sameBut {pid processFramesIndex : Word} {answer : Option MemoryAnswer}
    (h : m.processExit store pid processFramesIndex = some (m', answer)) :
    SameBut processFramesIndex.toNat m m' := by
  unfold processExit at h
  split at h
  · cases h
    exact ⟨rfl, fun _ _ => rfl⟩
  · obtain ⟨released, hreleased, heq⟩ := Option.map_eq_some_iff.1 h
    cases heq
    have hsame := unassignProcessFrames_sameBut hreleased
    exact ⟨hsame.length, hsame.others⟩

/-- The requests of the CPU leave the frames in the lists alone. -/
theorem handle_ofCpu {action : MemoryAction} {answer : Option MemoryAnswer}
    (h : m.handle cfg host store action = some (m', answer)) (hcpu : action.ofCpu = true) :
    m'.frameState = m.frameState := by
  refine handle_elim (motive := fun m' => m'.frameState = m.frameState) h ?create ?suspend ?exit
    ?access (fun _ _ => rfl) rfl
  case create =>
    rintro pid processSize rfl
    simp [MemoryAction.ofCpu] at hcpu
  case suspend =>
    rintro pid pt1Index processFramesIndex m' rfl
    simp [MemoryAction.ofCpu] at hcpu
  case exit =>
    rintro pid pt1Index processFramesIndex m' rfl
    simp [MemoryAction.ofCpu] at hcpu
  case access =>
    intro pid pt2Index entryIndex processFramesIndex found m' frame _ hframe
    exact getFrameNumber_frameState hframe

/-- The frames in a full list are frames of the memory, and their bits are set. -/
theorem Full.assigned (hm : m.Tracked cfg) (hfull : m.Full k n) : ∃ process,
    m.processesFrames[k]? = some process ∧
      process.frames.countP (fun entry =>
        0 ≤ entry.frame ∧ m.framesBitmap[entry.frame.toNat]? = some true) = n := by
  obtain ⟨numbers, hnumbers, rfl, hframes⟩ := hfull
  simp only [frameNumbers, List.getElem?_map, Option.map_eq_some_iff] at hnumbers
  obtain ⟨process, hprocess, rfl⟩ := hnumbers
  refine ⟨process, hprocess, ?_⟩
  rw [List.length_map, List.countP_eq_length]
  intro entry hentry
  have hnonneg := hframes _ (List.mem_map_of_mem hentry)
  have hholds : m.Holds entry.frame.toNat :=
    ⟨process, List.mem_of_getElem? hprocess, entry, hentry, (Int.toNat_of_nonneg hnonneg).symm⟩
  have hbit : 0 < assignedBit m.framesBitmap entry.frame.toNat :=
    hm.holders _ ▸ holds_iff.1 hholds
  have hset : m.framesBitmap[entry.frame.toNat]? = some true := by
    unfold assignedBit at hbit
    split at hbit
    · assumption
    · omega
  simp [hnonneg, hset]

end Memory
end SistemasOperativos
