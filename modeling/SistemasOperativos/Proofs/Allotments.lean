import SistemasOperativos.Proofs.Admission
import SistemasOperativos.Proofs.FrameLists
import SistemasOperativos.Proofs.TableIndices
import Mathlib.Algebra.Order.BigOperators.Group.Finset

/-!
# What a frame list has

A frame list has as many entries as `process_new` has found frames for, whatever comes later; it
has frames in them until its process is suspended, with one page at least, or exits.  Where the
lists with frames belong to few processes many frames are unassigned.
-/

namespace SistemasOperativos

namespace Memory

variable {Swap : Type} {cfg : MemoryConfig} {host : Host} {store : SwapStore Swap}
  {m m' : Memory Swap} {k : ℕ}

/-- Frame list `k` has a frame. -/
def HasFrame (m : Memory Swap) (k : ℕ) : Prop :=
  ∃ numbers, m.frameNumbers[k]? = some numbers ∧ ∃ frame ∈ numbers, 0 ≤ frame

/-- Every process was given all its frames. -/
def Allotted (cfg : MemoryConfig) (m : Memory Swap) : Prop :=
  ∀ numbers ∈ m.frameNumbers, numbers.length = cfg.framesPerProcess

/-- Every process has a page. -/
def Paged (m : Memory Swap) : Prop :=
  ∀ entries ∈ m.level1Tables, entries ≠ []

/-! ## Release -/

theorem not_hasFrame_of_unassigned (h : m.unassignProcessFrames k = some m') :
    ¬ m'.HasFrame k := by
  unfold unassignProcessFrames at h
  split at h <;> cases h
  rename_i process hprocess
  have hlt := (List.getElem?_eq_some_iff.1 hprocess).1
  rintro ⟨numbers, hnumbers, frame, hframe, hnonneg⟩
  simp only [frameNumbers, List.getElem?_map, List.getElem?_set_self hlt, Option.map_some,
    Option.some.injEq, List.map_map] at hnumbers
  subst hnumbers
  obtain ⟨entry, -, heq⟩ := List.mem_map.1 hframe
  rw [← heq] at hnonneg
  cases hnonneg

theorem suspendEntry_releases {pid : Word} {id : PageId}
    (h : m.suspendEntry cfg host store pid k id = some m') : ¬ m'.HasFrame k := by
  obtain ⟨saved, -, -, hreleased⟩ := suspendEntry_frameState h
  exact not_hasFrame_of_unassigned hreleased

/-- `process_suspend` releases the frames in its loops, so that a process without pages keeps
them. -/
theorem processSuspend_releases {pid pt1Index processFramesIndex : Word}
    {answer : Option MemoryAnswer} (hpid : pid ≠ 0)
    (h : m.processSuspend cfg host store pid pt1Index processFramesIndex = some (m', answer))
    (hpaged : m.Paged) (htables : ∀ table ∈ m.level2Tables, table ≠ []) :
    ¬ m'.HasFrame processFramesIndex.toNat := by
  unfold processSuspend at h
  rw [if_neg hpid] at h
  split at h
  · cases h
  rename_i entries hentries
  obtain ⟨suspended, hsuspended, heq⟩ := Option.map_eq_some_iff.1 h
  cases heq
  cases entries with
  | nil => exact absurd rfl (hpaged [] (List.mem_of_getElem? hentries))
  | cons entry rest =>
      simp only [List.foldlM_cons, Option.bind_eq_bind, Option.bind_eq_some_iff] at hsuspended
      obtain ⟨first, hfirst, hrest⟩ := hsuspended
      have hreleased : ¬ first.HasFrame processFramesIndex.toNat := by
        unfold suspendTable at hfirst
        repeat' split at hfirst
        · cases hfirst
        · cases hfirst
        · rename_i table _ pages hpages
          refine Machine.foldlM_of_ne_nil (fun _ _ _ h => suspendEntry_releases h) ?_ hfirst
          simpa using htables pages (List.mem_of_getElem? hpages)
      -- the other tables release them again
      refine @Machine.foldlM_invariant _ _ _
        (fun m : Memory Swap => ¬ m.HasFrame processFramesIndex.toNat) ?_ _ _ _ hreleased hrest
      intro before _ after hm h
      unfold suspendTable at h
      repeat' split at h
      · cases h
      · cases h
      · refine @Machine.foldlM_invariant _ _ _
          (fun m : Memory Swap => ¬ m.HasFrame processFramesIndex.toNat) ?_ _ _ _ hm h
        exact fun _ _ _ _ h => suspendEntry_releases h

theorem processExit_releases {pid processFramesIndex : Word} {answer : Option MemoryAnswer}
    (hpid : pid ≠ 0) (h : m.processExit store pid processFramesIndex = some (m', answer)) :
    ¬ m'.HasFrame processFramesIndex.toNat := by
  unfold processExit at h
  rw [if_neg hpid] at h
  obtain ⟨released, hreleased, heq⟩ := Option.map_eq_some_iff.1 h
  cases heq
  have hempty := not_hasFrame_of_unassigned hreleased
  exact hempty

/-- Another list has frames exactly if it had. -/
theorem SameBut.hasFrame {j : ℕ} (h : SameBut k m m') (hj : j ≠ k) :
    m'.HasFrame j ↔ m.HasFrame j := by
  rw [HasFrame, HasFrame, h.others j hj]

/-! ## Lengths -/

/-- A request that makes no list keeps the lengths of the lists. -/
theorem handle_lengths {action : MemoryAction} {answer : Option MemoryAnswer}
    (h : m.handle cfg host store action = some (m', answer))
    (hnew : ∀ pid processSize, action ≠ .processNew pid processSize) :
    m'.frameNumbers.map List.length = m.frameNumbers.map List.length := by
  have hunassign : ∀ {m m' : Memory Swap} {k : ℕ}, m.unassignProcessFrames k = some m' →
      m'.frameNumbers.map List.length = m.frameNumbers.map List.length := by
    intro m m' k h
    unfold unassignProcessFrames at h
    split at h <;> cases h
    rename_i process hprocess
    have hlt := (List.getElem?_eq_some_iff.1 hprocess).1
    obtain ⟨-, rfl⟩ := List.getElem?_eq_some_iff.1 hprocess
    refine List.ext_getElem (by simp [frameNumbers]) fun i hi hi' => ?_
    simp only [frameNumbers, List.map_map, List.map_set, List.getElem_map, List.getElem_set,
      Function.comp_apply]
    split
    · rename_i heq
      subst heq
      simp
    · rfl
  have hstate : ∀ {m m' : Memory Swap}, m'.frameState = m.frameState →
      m'.frameNumbers.map List.length = m.frameNumbers.map List.length := by
    intro m m' h
    exact congrArg (fun state => state.2.map List.length) h
  refine handle_elim (motive := fun m' => m'.frameNumbers.map List.length =
    m.frameNumbers.map List.length) h ?create ?suspend ?exit ?access (fun _ _ => rfl) rfl
  case create =>
    intro pid processSize heq
    exact absurd heq (hnew pid processSize)
  case suspend =>
    intro pid pt1Index processFramesIndex m' _ h
    refine @processSuspend_invariant _ _ _ _ _ _ _ (fun m' => m'.frameNumbers.map List.length =
      m.frameNumbers.map List.length) _ _ _ h (fun first second id hm h => ?_) rfl
    obtain ⟨saved, hsaved, -, hreleased⟩ := suspendEntry_frameState h
    exact (hunassign hreleased).trans ((hstate hsaved).trans hm)
  case exit =>
    intro pid pt1Index processFramesIndex m' _ h
    rcases processExit_eq_some h with rfl | ⟨released, hreleased, rfl⟩
    · rfl
    · have hlengths := hunassign hreleased
      exact hlengths
  case access =>
    intro pid pt2Index entryIndex processFramesIndex found m' frame _ hframe
    exact hstate (getFrameNumber_frameState hframe)

theorem Allotted.of_lengths (hm : m.Allotted cfg)
    (h : m'.frameNumbers.map List.length = m.frameNumbers.map List.length) : m'.Allotted cfg := by
  intro numbers hnumbers
  have hlength : numbers.length ∈ m.frameNumbers.map List.length :=
    h ▸ List.mem_map_of_mem hnumbers
  obtain ⟨old, hold, heq⟩ := List.mem_map.1 hlength
  exact heq ▸ hm old hold

/-! ## A new process -/

/-- A process that finds its frames unassigned is given all of them. -/
theorem processNew_allotted (store : SwapStore Swap) {pid : Word} (processSize : Word)
    (hpid : pid ≠ 0)
    (henough : cfg.framesPerProcess ≤ (freeFrames cfg m.framesBitmap).length)
    (hm : m.Allotted cfg) : (m.processNew cfg store pid processSize).1.Allotted cfg := by
  intro numbers hnumbers
  rw [frameNumbers, (processNew_frames cfg store m processSize hpid).2, List.map_append,
    List.mem_append, List.map_singleton, List.mem_singleton] at hnumbers
  rcases hnumbers with hold | rfl
  · exact hm numbers hold
  · rw [List.length_map, List.length_map, framesTaken, List.length_take_of_le henough]

/-- The lists there were have the frames they had. -/
theorem processNew_hasFrame (store : SwapStore Swap) {pid : Word} (processSize : Word)
    (hpid : pid ≠ 0) (hk : (m.processNew cfg store pid processSize).1.HasFrame k) :
    m.HasFrame k ∨ k = m.processesFrames.length := by
  obtain ⟨numbers, hnumbers, hframe⟩ := hk
  rw [frameNumbers, (processNew_frames cfg store m processSize hpid).2, List.map_append] at hnumbers
  rcases Nat.lt_or_ge k m.processesFrames.length with hlt | hge
  · rw [List.getElem?_append_left (by simpa using hlt)] at hnumbers
    exact .inl ⟨numbers, hnumbers, hframe⟩
  · have := (List.getElem?_eq_some_iff.1 hnumbers).1
    simp only [List.length_append, List.length_map, List.length_singleton] at this
    exact .inr (by omega)

theorem processNew_paged (store : SwapStore Swap) {pid processSize : Word} (hpid : pid ≠ 0)
    (hsize : level2PagesRequired cfg processSize ≠ 0) (hm : m.Paged) :
    (m.processNew cfg store pid processSize).1.Paged := by
  have htables : (m.processNew cfg store pid processSize).1.level1Tables = m.level1Tables ++
      [(List.range (level2PagesRequired cfg processSize)).map (m.level2Tables.length + ·)] := by
    rw [processNew, if_neg hpid]
    simp [assignProcessFrames, pageTableInit, addLevel2Tables_eq, addLevel2Tables_fst]
  intro entries hentries
  rw [htables, List.mem_append, List.mem_singleton] at hentries
  rcases hentries with hold | rfl
  · exact hm entries hold
  · simpa using hsize

/-! ## What is unassigned -/

/-- The frames that are assigned are in few lists, so the others are many. -/
theorem le_freeFrames (htracked : m.Tracked cfg) (hm : m.Allotted cfg) {lists : Finset ℕ}
    (hlists : ∀ k, m.HasFrame k → k ∈ lists) :
    cfg.framesInMemory ≤
      (freeFrames cfg m.framesBitmap).length + lists.card * cfg.framesPerProcess := by
  let taken : Finset ℕ := lists.biUnion fun k =>
    (((m.frameNumbers[k]?).getD []).map Int.toNat).toFinset
  have hcovered : Finset.range cfg.framesInMemory ⊆
      (freeFrames cfg m.framesBitmap).toFinset ∪ taken := by
    intro frame hframe
    rw [Finset.mem_range] at hframe
    by_cases hfree : m.framesBitmap[frame]? = some false
    · exact Finset.mem_union_left _ (List.mem_toFinset.2 (mem_freeFrames.2 ⟨hframe, hfree⟩))
    · -- the bit of the frame is set, so a list has it
      have hbit : 0 < assignedBit m.framesBitmap frame := by
        rw [← htracked.length] at hframe
        rw [List.getElem?_eq_getElem hframe, Option.some.injEq, Bool.not_eq_false] at hfree
        simp [assignedBit, List.getElem?_eq_getElem hframe, hfree]
      rw [← htracked.holders] at hbit
      obtain ⟨process, hprocess, entry, hentry, heq⟩ := holds_iff.2 hbit
      obtain ⟨k, hk⟩ := List.mem_iff_getElem?.1 hprocess
      have hnumbers : m.frameNumbers[k]? = some (process.frames.map FrameEntry.frame) := by
        simp [frameNumbers, hk]
      have hmem : (frame : ℤ) ∈ process.frames.map FrameEntry.frame :=
        List.mem_map.2 ⟨entry, hentry, heq⟩
      refine Finset.mem_union_right _ (Finset.mem_biUnion.2 ⟨k, hlists k ?_, ?_⟩)
      · exact ⟨_, hnumbers, frame, hmem, Int.natCast_nonneg frame⟩
      · rw [hnumbers, Option.getD_some, List.mem_toFinset]
        exact List.mem_map.2 ⟨frame, hmem, Int.toNat_natCast frame⟩
  have htaken : taken.card ≤ lists.card * cfg.framesPerProcess := by
    refine Finset.card_biUnion_le_card_mul _ _ _ fun k _ => ?_
    refine Nat.le_trans (List.toFinset_card_le _) ?_
    rw [List.length_map]
    cases hnumbers : m.frameNumbers[k]? with
    | none => exact Nat.zero_le _
    | some numbers => exact Nat.le_of_eq (hm numbers (List.mem_of_getElem? hnumbers))
  calc cfg.framesInMemory
      = (Finset.range cfg.framesInMemory).card := (Finset.card_range _).symm
    _ ≤ ((freeFrames cfg m.framesBitmap).toFinset ∪ taken).card := Finset.card_le_card hcovered
    _ ≤ (freeFrames cfg m.framesBitmap).toFinset.card + taken.card := Finset.card_union_le _ _
    _ ≤ (freeFrames cfg m.framesBitmap).length + lists.card * cfg.framesPerProcess :=
        Nat.add_le_add (List.toFinset_card_le _) htaken

end Memory
end SistemasOperativos
