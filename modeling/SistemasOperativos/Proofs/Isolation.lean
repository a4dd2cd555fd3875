import SistemasOperativos.Proofs.AddressSplit
import SistemasOperativos.Proofs.PageContents

/-!
# Whose bytes an access touches

`mmu` adds the offset to the number of the frame it is told, not to the address of the frame,
and the memory module reads the fields of its second request from behind an empty payload.  An
access stays in the frame of its page exactly when the number told is the address of the frame
and the four bytes fit behind the offset.
-/

namespace SistemasOperativos

variable {Swap : Type} {cfg : MemoryConfig} {host : Host} {store : SwapStore Swap}

namespace Memory

/-- The frame number told for the page that a `LVL2_TABLE` request names: the frame of a resident
page, the first frame of the frame list found, or -1. -/
def frameNamed (cfg : MemoryConfig) (m : Memory Swap) (pt2Index entryIndex : Word)
    (found : Option ℕ) : Option ℤ :=
  match m.page? ⟨pt2Index.toNat, entryIndex.toNat⟩ with
  | none => none
  | some page =>
      if page.present then some page.frame
      else
        match found >>= fun k => m.processesFrames[k]? with
        | none => none
        | some process =>
            match findFirstFreeFrame process with
            | some (free, _) => some (if hasFreeFrame cfg process then free.frame else -1)
            | none => some (-1)

/-- `get_frame_number` answers with the frame named. -/
theorem getFrameNumber_eq_frameNamed {m m' : Memory Swap} {pid pt2Index entryIndex : Word}
    {found : Option ℕ} {frame : ℤ}
    (h : m.getFrameNumber cfg host store ⟨pt2Index.toNat, entryIndex.toNat⟩ pid found =
      some (m', frame))
    (hfull : ∀ process ∈ m.processesFrames, hasFreeFrame cfg process = false →
      ∀ entry ∈ process.frames, entry.pageData = none) :
    m.frameNamed cfg pt2Index entryIndex found = some frame := by
  unfold getFrameNumber at h
  unfold frameNamed
  cases hpage : m.page? ⟨pt2Index.toNat, entryIndex.toNat⟩ with
  | none => simp [hpage] at h
  | some page =>
      simp only [hpage] at h ⊢
      cases hpresent : page.present with
      | true =>
          simp only [hpresent, if_true, Option.some.injEq, Prod.mk.injEq] at h ⊢
          exact h.2
      | false =>
          simp only [hpresent, Bool.false_eq_true, if_false] at h ⊢
          cases hfound : found with
          | none => simp [hfound] at h
          | some k =>
              cases hprocess : m.processesFrames[k]? with
              | none => simp [hfound, hprocess] at h
              | some process =>
                  simp only [hfound, hprocess, Option.bind_eq_bind, Option.bind_some] at h ⊢
                  cases hfree : hasFreeFrame cfg process with
                  | true =>
                      rw [if_pos hfree] at h
                      split at h <;> simp_all
                  | false =>
                      rw [if_neg (by simp [hfree])] at h
                      obtain ⟨-, rfl⟩ := replaceAlgorithm_eq hprocess
                        (hfull process (List.mem_of_getElem? hprocess) hfree) h
                      split <;> simp_all

/-! ## Full frame lists -/

/-- A list with a frame for every entry has no page. -/
def FullEmpty (cfg : MemoryConfig) (m : Memory Swap) : Prop :=
  ∀ process ∈ m.processesFrames, hasFreeFrame cfg process = false →
    ∀ entry ∈ process.frames, entry.pageData = none

variable {m m' : Memory Swap}

theorem unassignProcessFrames_fullEmpty {k : ℕ} (h : m.unassignProcessFrames k = some m')
    (hm : m.FullEmpty cfg) : m'.FullEmpty cfg := by
  obtain ⟨bitmap, processes, rfl, hprocesses⟩ := unassignProcessFrames_eq h
  intro process hmem hfree
  rcases hprocesses process hmem with hold | hnone
  · exact hm process hold hfree
  · exact hnone

theorem suspendEntry_fullEmpty {pid : Word} {k : ℕ} {id : PageId}
    (h : m.suspendEntry cfg host store pid k id = some m') (hm : m.FullEmpty cfg) :
    m'.FullEmpty cfg := by
  unfold suspendEntry at h
  split at h
  · cases h
  simp only at h
  split at h
  · cases h
  rename_i saved hsaved
  refine unassignProcessFrames_fullEmpty h ?_
  have hprocesses : saved.processesFrames = m.processesFrames := by
    split at hsaved
    · obtain ⟨written, hwritten, rfl⟩ := Option.map_eq_some_iff.1 hsaved
      unfold saveSwap at hwritten
      split at hwritten <;> cases hwritten
      rfl
    · cases hsaved
      rfl
  intro process hmem
  exact hm process (hprocesses ▸ hmem)

theorem handle_fullEmpty {action : MemoryAction} {answer : Option MemoryAnswer}
    (h : m.handle cfg host store action = some (m', answer)) (hm : m.FullEmpty cfg) :
    m'.FullEmpty cfg := by
  refine handle_elim h ?create ?suspend ?exit ?access (fun _ _ => hm) hm
  case create =>
    intro pid processSize _
    unfold processNew
    split
    · exact hm
    intro process hmem hfree
    simp only [assignProcessFrames, pageTableInit, addLevel2Tables_eq, List.mem_append,
      List.mem_singleton] at hmem
    rcases hmem with hold | rfl
    · exact hm process hold hfree
    · exact assignFrames_pageData _ _ [] (by simp)
  case suspend =>
    intro pid pt1Index processFramesIndex m' _ h
    exact processSuspend_invariant h (fun _ _ _ hm h => suspendEntry_fullEmpty h hm) hm
  case exit =>
    intro pid pt1Index processFramesIndex m' _ h
    rcases processExit_eq_some h with rfl | ⟨released, hreleased, rfl⟩
    · exact hm
    · intro process hmem
      exact unassignProcessFrames_fullEmpty hreleased hm process hmem
  case access =>
    intro pid pt2Index entryIndex processFramesIndex found m' frame _ hframe
    rcases getFrameNumber_cases hframe hm with ⟨page, -, -, rfl, -⟩ | ⟨page, -, -, rfl, -⟩ |
      ⟨page, k, process, free, i, -, -, -, hprocess, hfree, -, rfl, -⟩
    · exact hm
    · exact hm
    · exact full_modifyFrame hprocess hfree hm

theorem fullEmpty_of_reachable {swap : Swap}
    (hm : (memoryModule cfg host store swap).Reachable m) : m.FullEmpty cfg := by
  refine hm.invariant nofun fun action m m' _ hm h => ?_
  obtain ⟨⟨m₁, answer⟩, hhandle, rfl⟩ := Option.map_eq_some_iff.1 h
  exact handle_fullEmpty hhandle hm

end Memory

/-! ## Accesses -/

/-- `frame` is one of the frames of the process. -/
def AssignedTo (m : Memory Swap) (pcb : Pcb) (frame : ℕ) : Prop :=
  ∃ process ∈ m.processesFrames[pcb.processFramesIndex.toNat]?, ∃ entry ∈ process.frames,
    entry.frame = frame

/-- The page of a logical address, which is an `int`, is resident in `frame`. -/
structure ResidentIn (cfg : MemoryConfig) (host : Host) (m : Memory Swap) (pcb : Pcb)
    (logicDir : Word) (frame : ℕ) : Prop where
  nonneg : 0 ≤ logicDir.toInt
  resident : ∃ table ∈ m.getPageTable2Index host pcb.pageTable.toNat
      (fstLevelEntry cfg logicDir.toInt).toNat,
    ∃ page ∈ m.page? ⟨table, (scdLevelEntry cfg logicDir.toInt).toNat⟩,
      page.present = true ∧ page.frame = frame

/-- An access of a READ, WRITE or COPY: in a reachable state of the memory module, `mmu` gives
the process a physical address for a logical address whose page is resident. -/
structure Access (cfg : MemoryConfig) (host : Host) (store : SwapStore Swap) (swap : Swap) where
  m : Memory Swap
  pcb : Pcb
  logicDir : Word
  frame : ℕ
  heap₁ : Bytes
  heap₂ : Bytes
  found : Option ℕ
  physicDir : Word
  after : Memory Swap
  reachable : (memoryModule cfg host store swap).Reachable m
  resident : ResidentIn cfg host m pcb logicDir frame
  translated : mmu cfg host store pcb logicDir heap₁ heap₂ found m = some (physicDir, after)

namespace Access

variable {swap : Swap} (a b : Access cfg host store swap)

/-- The place of the address in its page. -/
def place : ℕ :=
  a.logicDir.toNat % cfg.pageSize

/-- The physical address is the place in the frame, and all bytes that are touched are in the
frame, which is one of the process. -/
structure Isolated : Prop where
  address : a.physicDir.toNat = a.frame * cfg.pageSize + a.place
  inside : ∀ byte ∈ Memory.touched a.physicDir,
    a.frame * cfg.pageSize ≤ byte ∧ byte < (a.frame + 1) * cfg.pageSize
  assigned : AssignedTo a.m a.pcb a.frame

/-- The page that the words behind the empty `LVL2_TABLE` payload name is in the frame whose
number is the address of the frame accessed, four bytes fit behind the place, or the address is
0, which touches none, and the frame is one of the process. -/
structure Meets : Prop where
  named : ∃ pid pt2Index entryIndex processFramesIndex offset number,
    MessageHeader.lvl2Table.decode [] a.heap₂ =
      some (.lvl2Table pid pt2Index entryIndex processFramesIndex, offset) ∧
    a.m.frameNamed cfg pt2Index entryIndex a.found = some number ∧
    (BitVec.ofInt 32 number).toNat = a.frame * cfg.pageSize
  fits : a.frame * cfg.pageSize + a.place = 0 ∨ a.place + 4 ≤ cfg.pageSize
  assigned : AssignedTo a.m a.pcb a.frame

/-- No byte is touched by both. -/
def Disjoint : Prop :=
  ∀ byte ∈ Memory.touched a.physicDir, byte ∉ Memory.touched b.physicDir

/-- The frames differ, or the places in the frame are four bytes apart, or one address is 0. -/
def Apart : Prop :=
  a.frame ≠ b.frame ∨ a.place + 4 ≤ b.place ∨ b.place + 4 ≤ a.place ∨
    a.frame * cfg.pageSize + a.place = 0 ∨ b.frame * cfg.pageSize + b.place = 0

/-- A frame of the process lies in the memory. -/
theorem frame_lt (h : AssignedTo a.m a.pcb a.frame) :
    (a.frame + 1) * cfg.pageSize ≤ cfg.memorySize := by
  obtain ⟨process, hprocess, entry, hentry, hframe⟩ := h
  have hlt := (Memory.frames_tracked a.reachable a.frame).2.1
    ⟨process, List.mem_of_getElem? hprocess, entry, hentry, hframe⟩
  calc (a.frame + 1) * cfg.pageSize
      ≤ cfg.framesInMemory * cfg.pageSize := Nat.mul_le_mul_right _ hlt
    _ ≤ cfg.memorySize := Nat.div_mul_le_self _ _

theorem place_lt : a.place < cfg.pageSize :=
  Nat.mod_lt _ cfg.pageSize_pos

/-- The offset `mmu` adds is the place of the address in its page. -/
theorem pageOffset_eq : pageOffset cfg a.logicDir.toInt = a.place :=
  pageOffset_of_lt (lt_of_nonneg a.resident.nonneg)

/-- The physical address is the frame number told plus the place in the page. -/
theorem physicDir_eq : ∃ pid pt2Index entryIndex processFramesIndex offset number,
    MessageHeader.lvl2Table.decode [] a.heap₂ =
      some (.lvl2Table pid pt2Index entryIndex processFramesIndex, offset) ∧
    a.m.frameNamed cfg pt2Index entryIndex a.found = some number ∧
    a.physicDir = BitVec.ofInt 32 number + BitVec.ofNat 32 a.place := by
  obtain ⟨pid, pt2Index, entryIndex, processFramesIndex, offset, number, hdecode, hnumber,
    hphysic⟩ := mmu_eq_some a.translated
  refine ⟨pid, pt2Index, entryIndex, processFramesIndex, offset, number, hdecode,
    Memory.getFrameNumber_eq_frameNamed hnumber (Memory.fullEmpty_of_reachable a.reachable), ?_⟩
  rw [hphysic, a.pageOffset_eq, BitVec.ofInt_natCast]

theorem mem_touched {address : Word} {byte : ℕ} :
    byte ∈ Memory.touched address ↔
      address ≠ 0 ∧ address.toNat ≤ byte ∧ byte < address.toNat + 4 := by
  unfold Memory.touched
  split
  · simp [*]
  · simp only [List.mem_map, List.mem_range, ne_eq, *, not_false_eq_true, true_and]
    constructor
    · rintro ⟨i, hi, rfl⟩
      omega
    · rintro ⟨hle, hlt⟩
      exact ⟨byte - address.toNat, by omega, by omega⟩

/-- Where the address is right, the bytes are in the frame exactly if they fit. -/
theorem inside_iff (haddress : a.physicDir.toNat = a.frame * cfg.pageSize + a.place) :
    (∀ byte ∈ Memory.touched a.physicDir,
        a.frame * cfg.pageSize ≤ byte ∧ byte < (a.frame + 1) * cfg.pageSize) ↔
      a.frame * cfg.pageSize + a.place = 0 ∨ a.place + 4 ≤ cfg.pageSize := by
  have hzero : a.physicDir = 0 ↔ a.frame * cfg.pageSize + a.place = 0 := by
    rw [← BitVec.toNat_inj, haddress]
    rfl
  have hmul : (a.frame + 1) * cfg.pageSize = a.frame * cfg.pageSize + cfg.pageSize :=
    Nat.succ_mul a.frame cfg.pageSize
  simp only [mem_touched, haddress, ne_eq, hzero, hmul]
  constructor
  · intro h
    by_cases hne : a.frame * cfg.pageSize + a.place = 0
    · exact .inl hne
    · have := h (a.frame * cfg.pageSize + a.place + 3) ⟨hne, by omega, by omega⟩
      exact .inr (by omega)
  · rintro (hnone | hfits) byte ⟨hne, hle, hlt⟩
    · exact absurd hnone hne
    · omega

theorem isolated_iff : a.Isolated ↔ a.Meets := by
  obtain ⟨pid, pt2Index, entryIndex, processFramesIndex, offset, number, hdecode, hnamed,
    hphysic⟩ := a.physicDir_eq
  have hplace := a.place_lt
  have hword := (BitVec.ofInt 32 number).isLt
  have hmul : (a.frame + 1) * cfg.pageSize = a.frame * cfg.pageSize + cfg.pageSize :=
    Nat.succ_mul a.frame cfg.pageSize
  have hsize := cfg.memorySize_lt
  have haddress : AssignedTo a.m a.pcb a.frame →
      (a.physicDir.toNat = a.frame * cfg.pageSize + a.place ↔
        (BitVec.ofInt 32 number).toNat = a.frame * cfg.pageSize) := by
    intro hassigned
    have hframe := a.frame_lt hassigned
    rw [hphysic, BitVec.toNat_add, BitVec.toNat_ofNat, Nat.mod_eq_of_lt (a := a.place) (by omega)]
    omega
  constructor
  · rintro ⟨haddr, hinside, hassigned⟩
    exact ⟨⟨pid, pt2Index, entryIndex, processFramesIndex, offset, number, hdecode, hnamed,
      (haddress hassigned).1 haddr⟩, (a.inside_iff haddr).1 hinside, hassigned⟩
  · rintro ⟨⟨pid', pt2Index', entryIndex', processFramesIndex', offset', number', hdecode',
      hnamed', hnumber⟩, hfits, hassigned⟩
    rw [hdecode] at hdecode'
    cases hdecode'
    rw [hnamed] at hnamed'
    cases hnamed'
    have haddr := (haddress hassigned).2 hnumber
    exact ⟨haddr, (a.inside_iff haddr).2 hfits, hassigned⟩

/-- Two accesses that stay in their frames touch a common byte only in one frame, within four
bytes of each other. -/
theorem disjoint_iff (ha : a.Isolated) (hb : b.Isolated) : a.Disjoint b ↔ a.Apart b := by
  have hmeets := a.isolated_iff.1 ha
  have hmeets' := b.isolated_iff.1 hb
  have hzero : a.physicDir = 0 ↔ a.frame * cfg.pageSize + a.place = 0 := by
    rw [← BitVec.toNat_inj, ha.address]
    rfl
  have hzero' : b.physicDir = 0 ↔ b.frame * cfg.pageSize + b.place = 0 := by
    rw [← BitVec.toNat_inj, hb.address]
    rfl
  simp only [Disjoint, Apart, mem_touched, ha.address, hb.address, ne_eq, hzero, hzero']
  constructor
  · intro h
    by_cases hframe : a.frame = b.frame
    · have := h (max (a.frame * cfg.pageSize + a.place) (b.frame * cfg.pageSize + b.place))
      rw [hframe] at this ⊢
      omega
    · exact .inl hframe
  · rintro hapart byte ⟨hne, hle, hlt⟩ ⟨hne', hle', hlt'⟩
    have hfits := hmeets.fits
    have hfits' := hmeets'.fits
    rcases Nat.lt_trichotomy a.frame b.frame with hless | heq | hmore
    · have := Nat.mul_le_mul_right cfg.pageSize hless
      rw [Nat.succ_mul] at this
      omega
    · rw [heq] at hle hlt hne hapart
      omega
    · have := Nat.mul_le_mul_right cfg.pageSize hmore
      rw [Nat.succ_mul] at this
      omega

/-- Two accesses are each at the place of their address in the frame of its page, inside the
frame and in a frame of the process, and touch no common byte, exactly if both requests are told
the address of the frame as its number, the bytes fit, and the two are apart. -/
theorem isolation : (a.Isolated ↔ a.Meets) ∧
    (a.Isolated ∧ b.Isolated ∧ a.Disjoint b ↔ a.Meets ∧ b.Meets ∧ a.Apart b) := by
  refine ⟨a.isolated_iff, ?_⟩
  rw [← a.isolated_iff, ← b.isolated_iff]
  constructor
  · rintro ⟨ha, hb, hdisjoint⟩
    exact ⟨ha, hb, (a.disjoint_iff b ha hb).1 hdisjoint⟩
  · rintro ⟨ha, hb, hapart⟩
    exact ⟨ha, hb, (a.disjoint_iff b ha hb).2 hapart⟩

/-- The second of two processes has its page in frame 2 and asks for place 4 in it, and behind
the empty payload lie the fields meant: it is given address 6, in a frame of the first. -/
theorem not_isolated : ∃ a : Access (.small 2) .direct (pageStore (.small 2)) fun _ _ => [],
    (a.frame = 2 ∧ a.place = 4 ∧ a.physicDir = 6 ∧
      a.m.processesFrames.map (fun process => process.frames.map FrameEntry.frame) =
        [[0, 1], [2]]) ∧ ¬ a.Isolated := by
  let pcb : Pcb := { (default : Pcb) with pid := 2, pageTable := 1, processFramesIndex := 1 }
  let heap := wordsPayload [2, 1, 0, 1]
  obtain ⟨m, hm, htest⟩ := Machine.exists_reachable_of_run (memoryModuleSmall 2)
    [.processNew 1 16, .processNew 2 16, .accessLvl2Table 2 1 0 1 (some 1)]
    (fun m => (mmu (.small 2) .direct (pageStore (.small 2)) pcb 4 [] heap (some 1) m).map
        Prod.fst = some 6 ∧
      m.getPageTable2Index .direct 1 0 = some 1 ∧ m.page? ⟨1, 0⟩ = some ⟨2, true, false, false, 0⟩ ∧
      m.processesFrames.map (fun process => process.frames.map FrameEntry.frame) = [[0, 1], [2]])
    (by decide +kernel)
  obtain ⟨hmmu, htable, hpage, hframes⟩ := of_decide_eq_true htest
  obtain ⟨⟨physicDir, after⟩, htranslated, hphysic⟩ := Option.map_eq_some_iff.1 hmmu
  simp only at hphysic
  subst hphysic
  refine ⟨⟨m, pcb, 4, 2, [], heap, some 1, 6, after, hm, ⟨by decide, ?_⟩, htranslated⟩,
    ⟨rfl, rfl, rfl, hframes⟩, fun hisolated => ?_⟩
  · exact ⟨1, htable, _, hpage, rfl, rfl⟩
  · have hne : (6 : Word).toNat ≠ 2 * (MemoryConfig.small 2).pageSize +
        (4 : Word).toNat % (MemoryConfig.small 2).pageSize := by decide
    exact hne hisolated.address

end Access
end SistemasOperativos
