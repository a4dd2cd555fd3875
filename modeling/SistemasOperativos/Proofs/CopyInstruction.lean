import SistemasOperativos.Library.Splice
import SistemasOperativos.Proofs.AddressSplit
import SistemasOperativos.Proofs.Residency

/-!
# COPY between two logical addresses

`execute_copy` translates both addresses before it uses either.  The second translation may take
the page of the first one out of its frame, and the first address is then no longer its own.
-/

open Splice

namespace SistemasOperativos

variable {Swap : Type} {cfg : MemoryConfig} {host : Host} {store : SwapStore Swap}

/-! ## Reads and writes -/

theorem readMem_eq (fisicDir : Word) (m : Memory Swap) :
    readMem fisicDir m =
      if fisicDir ≠ 0 ∧ fisicDir.toNat + 4 ≤ m.memory.length then
        some (Word.ofBytes (slice m.memory fisicDir.toNat 4), m)
      else none := by
  unfold readMem Memory.memoryRead
  by_cases hzero : fisicDir = 0
  · rw [if_pos hzero, if_neg fun h => h.1 hzero]
  · rw [if_neg hzero]
    by_cases hinside : fisicDir.toNat + 4 ≤ m.memory.length
    · rw [if_pos hinside, if_pos ⟨hzero, hinside⟩]
      rfl
    · rw [if_neg hinside, if_neg fun h => hinside h.2]

theorem writeMem_eq (fisicDir value : Word) (m : Memory Swap) :
    writeMem fisicDir value m =
      if fisicDir ≠ 0 ∧ fisicDir.toNat + 4 ≤ m.memory.length then
        some { m with memory := splice m.memory fisicDir.toNat value.bytes }
      else none := by
  unfold writeMem Memory.memoryWrite Memory.writeBytes
  by_cases hzero : fisicDir = 0
  · rw [if_pos hzero, if_neg fun h => h.1 hzero]
  · rw [if_neg hzero]
    by_cases hinside : fisicDir.toNat + 4 ≤ m.memory.length
    · rw [if_pos ⟨Int.natCast_nonneg _, hinside⟩, if_pos ⟨hzero, hinside⟩]
      rfl
    · have hleaves : ¬ fisicDir.toNat + value.bytes.length ≤ m.memory.length := hinside
      rw [if_neg fun h => hleaves h.2, if_neg fun h => hinside h.2]
      rfl

/-! ## Translations -/

/-- The page that the words behind the empty `LVL2_TABLE` payload name. -/
def namedPage (heap : Bytes) : Option PageId :=
  match MessageHeader.lvl2Table.decode [] heap with
  | some (.lvl2Table _ pt2Index entryIndex _, _) => some ⟨pt2Index.toNat, entryIndex.toNat⟩
  | _ => none

/-- `mmu` asks for the page named, and adds the offset to the number it is told. -/
theorem mmu_blank {pcb : Pcb} {logicDir physicDir : Word} {heap₁ heap₂ : Bytes} {found : Option ℕ}
    {m m' : Memory Swap} {id : PageId}
    (h : mmu cfg host store pcb logicDir heap₁ heap₂ found m = some (physicDir, m'))
    (hid : namedPage heap₂ = some id) (hm : m.Bounded cfg) :
    m'.Bounded cfg ∧ m'.blank = (m.blank.ask cfg id found).1 ∧
      physicDir = BitVec.ofInt 32 (m.blank.ask cfg id found).2 +
        BitVec.ofInt 32 (pageOffset cfg logicDir.toInt) := by
  obtain ⟨pid, pt2Index, entryIndex, processFramesIndex, offset, number, hdecode, hnumber,
    hphysic⟩ := mmu_eq_some h
  obtain rfl : (⟨pt2Index.toNat, entryIndex.toNat⟩ : PageId) = id := by
    rw [namedPage, hdecode] at hid
    exact Option.some.inj hid
  have hblank := Memory.getFrameNumber_blank hnumber hm
  refine ⟨hm.of_frameState (Memory.getFrameNumber_frameState hnumber),
    congrArg Prod.fst hblank, ?_⟩
  rw [hphysic, ← congrArg Prod.snd hblank]

/-! ## Copies -/

/-- A COPY of a process, in any state with a memory of its size and frame lists no longer than they
may be. -/
structure Copy (cfg : MemoryConfig) (host : Host) (store : SwapStore Swap) where
  m : Memory Swap
  pcb : Pcb
  lAddress : Word
  lValueAddress : Word
  write : Surroundings
  read : Surroundings
  size : m.memory.length = cfg.memorySize
  bounded : m.Bounded cfg

/-- The two translations of a COPY, answered: the pages that the requests name, the addresses, and
the states of the memory module. -/
structure Translations (c : Copy cfg host store) where
  writePage : PageId
  readPage : PageId
  fisicDirWrite : Word
  fisicDirRead : Word
  translated : Memory Swap
  after : Memory Swap
  namedWrite : namedPage c.write.heap₂ = some writePage
  namedRead : namedPage c.read.heap₂ = some readPage
  translatedWrite : mmu cfg host store c.pcb c.lAddress c.write.heap₁ c.write.heap₂ c.write.found
    c.m = some (fisicDirWrite, translated)
  translatedRead : mmu cfg host store c.pcb c.lValueAddress c.read.heap₁ c.read.heap₂ c.read.found
    translated = some (fisicDirRead, after)

namespace Translations

variable {c : Copy cfg host store} (t : Translations c)

/-- `fisicDir` is the place of the logical address in the frame of its page, when the memory is
read and written, and the word there is in the page. -/
structure PointsTo (logicDir fisicDir : Word) (frame : ℕ) : Prop where
  resident : ResidentIn cfg host t.after c.pcb logicDir frame
  address : fisicDir.toNat = frame * cfg.pageSize + logicDir.toNat % cfg.pageSize
  fits : logicDir.toNat % cfg.pageSize + 4 ≤ cfg.pageSize

/-- The two addresses are those of the pages, and the word of the second is now at the first.
Nothing else has changed since they were translated. -/
structure Copies : Prop where
  destination : ∃ frame, t.PointsTo c.lAddress t.fisicDirWrite frame
  source : ∃ frame, t.PointsTo c.lValueAddress t.fisicDirRead frame
  copied : executeCopy cfg host store c.pcb c.lAddress c.lValueAddress c.write c.read c.m =
    some { t.after with
      memory := splice t.after.memory t.fisicDirWrite.toNat
        (slice t.after.memory t.fisicDirRead.toNat 4) }

/-! ## When it copies -/

/-- The tables after the first request, and the frame number it tells. -/
def first : Memory Unit × ℤ :=
  c.m.blank.ask cfg t.writePage c.write.found

/-- The tables after the second request, and the frame number it tells. -/
def second : Memory Unit × ℤ :=
  t.first.1.ask cfg t.readPage c.read.found

/-- The logical address is an `int`, its page is in `frame` after both requests, the number told
for it is the address of the frame, the word is in the page, and in the memory behind address
0. -/
structure Hits (logicDir : Word) (number : ℤ) (frame : ℕ) : Prop where
  int : logicDir.toNat < 2 ^ 31
  resident : ∃ table ∈ c.m.getPageTable2Index host c.pcb.pageTable.toNat
      (logicDir.toNat / cfg.pageSize / cfg.entriesPerTable),
    t.first.1.residentAfter cfg t.readPage c.read.found
      ⟨table, logicDir.toNat / cfg.pageSize % cfg.entriesPerTable⟩ = some (frame : ℤ)
  number : (BitVec.ofInt 32 number).toNat = frame * cfg.pageSize
  fits : logicDir.toNat % cfg.pageSize + 4 ≤ cfg.pageSize
  served : 0 < frame * cfg.pageSize + logicDir.toNat % cfg.pageSize
  inside : frame * cfg.pageSize + logicDir.toNat % cfg.pageSize + 4 ≤ cfg.memorySize

/-- Both addresses hit the pages they are of. -/
structure Meets : Prop where
  destination : ∃ frame, t.Hits c.lAddress t.first.2 frame
  source : ∃ frame, t.Hits c.lValueAddress t.second.2 frame

theorem after_blank : t.translated.blank = t.first.1 ∧ t.after.blank = t.second.1 ∧
    t.first.1.Bounded cfg := by
  obtain ⟨hbounded, hfirst, -⟩ := mmu_blank t.translatedWrite t.namedWrite c.bounded
  obtain ⟨-, hsecond, -⟩ := mmu_blank t.translatedRead t.namedRead hbounded
  refine ⟨hfirst, hsecond.trans ?_, hfirst ▸ hbounded⟩
  rw [hfirst]
  rfl

/-- The two requests leave the level-1 tables and the size of the memory alone. -/
theorem after_outline : t.after.level1Tables = c.m.level1Tables ∧
    t.after.memory.length = cfg.memorySize := by
  obtain ⟨-, hsecond, hbounded⟩ := t.after_blank
  have hbounded₀ : c.m.blank.Bounded cfg := c.bounded
  have hfirst : Memory.SameOutline c.m.blank t.first.1 :=
    Memory.ask_outline hbounded₀ t.writePage c.write.found
  have hrest : Memory.SameOutline t.first.1 t.second.1 :=
    Memory.ask_outline hbounded t.readPage c.read.found
  obtain ⟨hlevel1, hlength⟩ := Memory.SameOutline.of_blank (hsecond ▸ hfirst.trans hrest)
  exact ⟨hlevel1, hlength.trans c.size⟩

/-- The read and the write go through where both addresses are in the memory, and not 0. -/
theorem copied_iff :
    executeCopy cfg host store c.pcb c.lAddress c.lValueAddress c.write c.read c.m =
        some { t.after with
          memory := splice t.after.memory t.fisicDirWrite.toNat
            (slice t.after.memory t.fisicDirRead.toNat 4) } ↔
      (t.fisicDirWrite ≠ 0 ∧ t.fisicDirWrite.toNat + 4 ≤ cfg.memorySize) ∧
        t.fisicDirRead ≠ 0 ∧ t.fisicDirRead.toNat + 4 ≤ cfg.memorySize := by
  have hlength := t.after_outline.2
  simp only [executeCopy, t.translatedWrite, t.translatedRead, readMem_eq, hlength]
  by_cases hread : t.fisicDirRead ≠ 0 ∧ t.fisicDirRead.toNat + 4 ≤ cfg.memorySize
  · have hword : (Word.ofBytes (slice t.after.memory t.fisicDirRead.toNat 4)).bytes =
        slice t.after.memory t.fisicDirRead.toNat 4 :=
      Word.bytes_ofBytes (length_slice (hlength ▸ hread.2))
    rw [if_pos hread]
    simp only [writeMem_eq, hlength, hword]
    by_cases hwrite : t.fisicDirWrite ≠ 0 ∧ t.fisicDirWrite.toNat + 4 ≤ cfg.memorySize
    · rw [if_pos hwrite]
      exact iff_of_true rfl ⟨hwrite, hread⟩
    · rw [if_neg hwrite]
      exact iff_of_false (by simp) fun h => hwrite h.1
  · rw [if_neg hread]
    exact iff_of_false (by simp) fun h => hread h.2

/-- Where a page is after both requests. -/
theorem residentIn_iff {logicDir : Word} {frame : ℕ} :
    ResidentIn cfg host t.after c.pcb logicDir frame ↔
      logicDir.toNat < 2 ^ 31 ∧ ∃ table ∈ c.m.getPageTable2Index host c.pcb.pageTable.toNat
          (logicDir.toNat / cfg.pageSize / cfg.entriesPerTable),
        t.first.1.residentAfter cfg t.readPage c.read.found
          ⟨table, logicDir.toNat / cfg.pageSize % cfg.entriesPerTable⟩ = some (frame : ℤ) := by
  obtain ⟨-, hsecond, hbounded⟩ := t.after_blank
  have hresident : ∀ id, t.first.1.residentAfter cfg t.readPage c.read.found id =
      t.after.residentFrame id := by
    intro id
    have hask : t.second.1.residentFrame id = _ :=
      Memory.ask_residentFrame hbounded t.readPage c.read.found id
    rw [← hask, ← hsecond]
    rfl
  have htables : t.after.getPageTable2Index host = c.m.getPageTable2Index host := by
    funext pt1Index entryIndex
    rw [Memory.getPageTable2Index, Memory.getPageTable2Index, t.after_outline.1]
  have hframe : ∀ id, (∃ page ∈ t.after.page? id, page.present = true ∧ page.frame = frame) ↔
      t.after.residentFrame id = some (frame : ℤ) := by
    intro id
    rw [Memory.residentFrame]
    cases t.after.page? id with
    | none => simp
    | some page => cases page.present <;> simp [Option.bind_some]
  simp only [hresident, ← htables]
  constructor
  · rintro ⟨hnonneg, table, htable, hpage⟩
    have hint := lt_of_nonneg hnonneg
    rw [fstLevelEntry_of_lt hint, Int.toNat_natCast] at htable
    rw [scdLevelEntry_of_lt hint, Int.toNat_natCast, hframe] at hpage
    exact ⟨hint, table, htable, hpage⟩
  · rintro ⟨hint, table, htable, hpage⟩
    refine ⟨toInt_of_lt hint ▸ Int.natCast_nonneg _, table, ?_, ?_⟩
    · rw [fstLevelEntry_of_lt hint, Int.toNat_natCast]
      exact htable
    · rw [scdLevelEntry_of_lt hint, Int.toNat_natCast, hframe]
      exact hpage

/-- The address of a word in a frame of the memory is right if the number told is. -/
theorem address_iff {logicDir fisicDir : Word} {number : ℤ} {frame : ℕ}
    (hint : logicDir.toNat < 2 ^ 31)
    (htold : fisicDir = BitVec.ofInt 32 number + BitVec.ofInt 32 (pageOffset cfg logicDir.toInt))
    (hinside : frame * cfg.pageSize + logicDir.toNat % cfg.pageSize < 2 ^ 32) :
    fisicDir.toNat = frame * cfg.pageSize + logicDir.toNat % cfg.pageSize ↔
      (BitVec.ofInt 32 number).toNat = frame * cfg.pageSize := by
  have hplace : logicDir.toNat % cfg.pageSize ≤ logicDir.toNat := Nat.mod_le _ _
  have hnumber := (BitVec.ofInt 32 number).isLt
  have hsum : fisicDir.toNat =
      ((BitVec.ofInt 32 number).toNat + logicDir.toNat % cfg.pageSize) % 2 ^ 32 := by
    rw [htold, pageOffset_of_lt hint, BitVec.ofInt_natCast, BitVec.toNat_add, BitVec.toNat_ofNat,
      Nat.mod_eq_of_lt (a := logicDir.toNat % cfg.pageSize) (by omega)]
  rw [hsum]
  generalize logicDir.toNat % cfg.pageSize = place at hinside hplace ⊢
  generalize frame * cfg.pageSize = start at hinside ⊢
  omega

theorem hits_iff {logicDir fisicDir : Word} {number : ℤ} {frame : ℕ}
    (htold : fisicDir = BitVec.ofInt 32 number + BitVec.ofInt 32 (pageOffset cfg logicDir.toInt)) :
    t.Hits logicDir number frame ↔ t.PointsTo logicDir fisicDir frame ∧
      fisicDir ≠ 0 ∧ fisicDir.toNat + 4 ≤ cfg.memorySize := by
  have hsize := cfg.memorySize_lt
  have hzero : fisicDir ≠ 0 ↔ 0 < fisicDir.toNat := by
    rw [Nat.pos_iff_ne_zero, ne_eq, ne_eq, ← BitVec.toNat_inj]
    rfl
  rw [hzero]
  constructor
  · intro h
    have haddress := (address_iff h.int htold
      (Nat.lt_of_le_of_lt (Nat.le_add_right _ 4) (by have := h.inside; omega))).2 h.number
    exact ⟨⟨t.residentIn_iff.2 ⟨h.int, h.resident⟩, haddress, h.fits⟩, haddress ▸ h.served,
      haddress ▸ h.inside⟩
  · rintro ⟨⟨hresident, haddress, hfits⟩, hserved, hinside⟩
    obtain ⟨hint, hpage⟩ := t.residentIn_iff.1 hresident
    rw [haddress] at hserved hinside
    have hnumber := (address_iff hint htold (by omega)).1 haddress
    exact ⟨hint, hpage, hnumber, hfits, hserved, hinside⟩

/-- What is read afterwards: the word of the source at the destination, and elsewhere what was
there. -/
theorem Copies.reads (h : t.Copies) {m' : Memory Swap}
    (hm' : executeCopy cfg host store c.pcb c.lAddress c.lValueAddress c.write c.read c.m =
      some m') :
    slice m'.memory t.fisicDirWrite.toNat 4 = slice t.after.memory t.fisicDirRead.toNat 4 ∧
      ∀ start n, start + n ≤ t.fisicDirWrite.toNat ∨ t.fisicDirWrite.toNat + 4 ≤ start →
        slice m'.memory start n = slice t.after.memory start n := by
  obtain ⟨⟨-, hwrite⟩, -, hread⟩ := t.copied_iff.1 h.copied
  obtain rfl := Option.some.inj (h.copied.symm.trans hm')
  have hlength := t.after_outline.2
  have hword : (slice t.after.memory t.fisicDirRead.toNat 4).length = 4 :=
    length_slice (hlength ▸ hread)
  have hinside : t.fisicDirWrite.toNat + (slice t.after.memory t.fisicDirRead.toNat 4).length ≤
      t.after.memory.length := by
    rw [hword, hlength]
    exact hwrite
  constructor
  · have hwritten := slice_splice hinside
    rwa [hword] at hwritten
  · intro start n hdisjoint
    exact slice_splice_of_disjoint hinside (by rwa [hword])

/-- The translations are used for a copy if and only if both hit their pages. -/
theorem copies_iff_meets : t.Copies ↔ t.Meets := by
  obtain ⟨hbounded, hfirst, hwrite⟩ := mmu_blank t.translatedWrite t.namedWrite c.bounded
  obtain ⟨-, -, hread⟩ := mmu_blank t.translatedRead t.namedRead hbounded
  rw [hfirst] at hread
  constructor
  · rintro ⟨⟨frame, hdst⟩, ⟨frame', hsrc⟩, hcopied⟩
    obtain ⟨hwritten, hreadable⟩ := t.copied_iff.1 hcopied
    exact ⟨⟨frame, (t.hits_iff hwrite).2 ⟨hdst, hwritten⟩⟩,
      ⟨frame', (t.hits_iff hread).2 ⟨hsrc, hreadable⟩⟩⟩
  · rintro ⟨⟨frame, hdst⟩, ⟨frame', hsrc⟩⟩
    obtain ⟨hdst, hwritten⟩ := (t.hits_iff hwrite).1 hdst
    obtain ⟨hsrc, hreadable⟩ := (t.hits_iff hread).1 hsrc
    exact ⟨⟨frame, hdst⟩, ⟨frame', hsrc⟩, t.copied_iff.2 ⟨hwritten, hreadable⟩⟩

end Translations

namespace Copy

variable (c : Copy cfg host store)

/-- Both translations are answered, and used for a copy. -/
def Copies : Prop :=
  ∃ t : Translations c, t.Copies

/-- Both translations are answered, and hit their pages. -/
def Meets : Prop :=
  ∃ t : Translations c, t.Meets

/-- If the second translation takes the page of the destination out, nothing is copied there. -/
theorem not_copies_of_takenOut {writePage readPage : PageId} {table : ℕ}
    (hwrite : namedPage c.write.heap₂ = some writePage)
    (hread : namedPage c.read.heap₂ = some readPage)
    (htable : table ∈ c.m.getPageTable2Index host c.pcb.pageTable.toNat
      (c.lAddress.toNat / cfg.pageSize / cfg.entriesPerTable))
    (htaken : (c.m.blank.ask cfg writePage c.write.found).1.takenOut cfg readPage c.read.found =
      some ⟨table, c.lAddress.toNat / cfg.pageSize % cfg.entriesPerTable⟩)
    (hother : readPage ≠ ⟨table, c.lAddress.toNat / cfg.pageSize % cfg.entriesPerTable⟩) :
    ¬ c.Copies := by
  rintro ⟨t, ⟨frame, hdestination⟩, -, -⟩
  obtain rfl := Option.some.inj (hwrite.symm.trans t.namedWrite)
  obtain rfl := Option.some.inj (hread.symm.trans t.namedRead)
  obtain ⟨-, table', htable', hresident⟩ := t.residentIn_iff.1 hdestination.resident
  obtain rfl : table' = table := Option.some.inj (htable'.symm.trans htable)
  have hfirst : t.first.1.takenOut cfg t.readPage c.read.found =
      some ⟨table', c.lAddress.toNat / cfg.pageSize % cfg.entriesPerTable⟩ := htaken
  have hnumber : (t.first.1.ask cfg t.readPage c.read.found).2 ≠ -1 := by
    cases Memory.asked t.after_blank.2.2 t.readPage c.read.found with
    | vacated k victim hframe hpage hask htaken' =>
        rw [hask]
        exact hframe
    | nothing hask htaken' => simp [htaken'] at hfirst
    | resident frame hresident hask htaken' => simp [htaken'] at hfirst
    | free k i frame hframe hpage hask htaken' => simp [htaken'] at hfirst
    | inVain k hask htaken' => simp [htaken'] at hfirst
  rw [Memory.residentAfter, if_neg hnumber, if_neg (Ne.symm hother), if_pos hfirst] at hresident
  cases hresident

/-- COPY copies a word between two logical addresses if and only if both translations are answered
and hit their pages. -/
theorem copies_iff : c.Copies ↔ c.Meets :=
  exists_congr fun t => t.copies_iff_meets

/-- A process whose one frame has its first page. -/
def oneFrame : Memory (Word → ℕ → Bytes) where
  memory := (List.range 24).map UInt8.ofNat
  framesBitmap := [true, false, false]
  level1Tables := [[0]]
  level2Tables := [[⟨0, true, false, false, 0⟩, ⟨-1, false, false, false, 1⟩]]
  processesFrames := [⟨[⟨0, some ⟨0, 0⟩⟩], 0⟩]
  swap := fun _ _ => []
  owners := [1]

theorem oneFrame_bounded : oneFrame.Bounded (.small 1) := by
  intro process hmem
  obtain rfl := List.mem_singleton.1 hmem
  decide

/-- The PCB of process 1. -/
def onePcb : Pcb :=
  { (default : Pcb) with pid := 1 }

/-- What lies behind the empty payload is what was to be in it. -/
def asked (entryIndex : Word) : Surroundings :=
  ⟨[], wordsPayload [1, 0, entryIndex, 0], some 0⟩

/-- The page is there, so the tables stay as they are. -/
theorem oneFrame_mmu :
    mmu (.small 1) Memory.quietHost (pageStore (.small 1)) onePcb 4 [] (asked 0).heap₂ (some 0)
        oneFrame = some (4, oneFrame) ∧
      mmu (.small 1) Memory.quietHost (pageStore (.small 1)) onePcb 1 [] (asked 0).heap₂ (some 0)
        oneFrame = some (1, oneFrame) :=
  ⟨rfl, rfl⟩

/-- A word of the page is copied inside of it. -/
theorem copies_small : ∃ c : Copy (.small 1) Memory.quietHost (pageStore (.small 1)),
    c.m = oneFrame ∧ c.lAddress = 4 ∧ c.lValueAddress = 1 ∧ c.Copies := by
  let c : Copy (.small 1) Memory.quietHost (pageStore (.small 1)) :=
    ⟨oneFrame, onePcb, 4, 1, asked 0, asked 0, rfl, oneFrame_bounded⟩
  let t : Translations c :=
    ⟨⟨0, 0⟩, ⟨0, 0⟩, 4, 1, oneFrame, oneFrame, by decide, by decide, oneFrame_mmu.1,
      oneFrame_mmu.2⟩
  refine ⟨c, rfl, rfl, rfl, c.copies_iff.2 ⟨t, ⟨0, ?_⟩, ⟨0, ?_⟩⟩⟩
  · exact ⟨by decide, ⟨0, by decide, by decide⟩, by decide, by decide, by decide, by decide⟩
  · exact ⟨by decide, ⟨0, by decide, by decide⟩, by decide, by decide, by decide, by decide⟩

/-- The first page is the destination and the second one the source: both addresses are 4, though
the first page has gone.  In a run of the memory module, a process with its page in frame 2 copies
from address 2 to address 6, not from 16 to 20. -/
theorem not_copies :
    (∃ c : Copy (.small 1) Memory.quietHost (pageStore (.small 1)),
      (c.m = oneFrame ∧ c.lAddress = 4 ∧ c.lValueAddress = 12) ∧
      (∃ t : Translations c, t.fisicDirWrite = 4 ∧ t.fisicDirRead = 4 ∧
        (t.after.page? ⟨0, 0⟩).map PageEntry.present = some false) ∧ ¬ c.Copies) ∧
    ∃ c : Copy (.small 2) .direct (pageStore (.small 2)), (memoryModuleSmall 2).Reachable c.m ∧
      (c.lAddress = 4 ∧ c.lValueAddress = 0) ∧
      (∃ t : Translations c, t.fisicDirWrite = 6 ∧ t.fisicDirRead = 2) ∧ ¬ c.Copies := by
  constructor
  · let c : Copy (.small 1) Memory.quietHost (pageStore (.small 1)) :=
      ⟨oneFrame, onePcb, 4, 12, asked 0, asked 1, rfl, oneFrame_bounded⟩
    have hrun : (mmu (.small 1) Memory.quietHost (pageStore (.small 1)) onePcb 12 []
        (asked 1).heap₂ (some 0) oneFrame).map (fun result =>
          (result.1, (result.2.page? ⟨0, 0⟩).map PageEntry.present)) = some (4, some false) := by
      decide +kernel
    have htable : 0 ∈ oneFrame.getPageTable2Index Memory.quietHost onePcb.pageTable.toNat
        ((4 : Word).toNat / (MemoryConfig.small 1).pageSize /
          (MemoryConfig.small 1).entriesPerTable) := by
      decide
    have htaken : (oneFrame.blank.ask (.small 1) ⟨0, 0⟩ (some 0)).1.takenOut (.small 1) ⟨0, 1⟩
        (some 0) = some ⟨0, (4 : Word).toNat / (MemoryConfig.small 1).pageSize %
          (MemoryConfig.small 1).entriesPerTable⟩ := by
      decide
    have hother : (⟨0, 1⟩ : PageId) ≠ ⟨0, (4 : Word).toNat / (MemoryConfig.small 1).pageSize %
        (MemoryConfig.small 1).entriesPerTable⟩ := by
      decide
    obtain ⟨⟨fisicDir, after⟩, htranslated, hfacts⟩ := Option.map_eq_some_iff.1 hrun
    obtain ⟨rfl, hgone⟩ := Prod.mk.injEq .. ▸ hfacts
    have hnamed : namedPage c.write.heap₂ = some ⟨0, 0⟩ := by decide
    have hnamed' : namedPage c.read.heap₂ = some ⟨0, 1⟩ := by decide
    exact ⟨c, ⟨rfl, rfl, rfl⟩, ⟨⟨⟨0, 0⟩, ⟨0, 1⟩, 4, 4, oneFrame, after, hnamed, hnamed',
      oneFrame_mmu.1, htranslated⟩, rfl, rfl, hgone⟩,
      c.not_copies_of_takenOut hnamed hnamed' htable htaken hother⟩
  · let pcb : Pcb := { (default : Pcb) with pid := 2, pageTable := 1, processFramesIndex := 1 }
    let around : Surroundings := ⟨[], wordsPayload [2, 1, 0, 1], some 1⟩
    have hnamed : namedPage around.heap₂ = some ⟨1, 0⟩ := by decide
    obtain ⟨m, hm, htest⟩ := Machine.exists_reachable_of_run (memoryModuleSmall 2)
      [.processNew 1 16, .processNew 2 16, .accessLvl2Table 2 1 0 1 (some 1)]
      (fun m => (mmu (.small 2) .direct (pageStore (.small 2)) pcb 4 [] around.heap₂ (some 1)
        m >>= fun first => (mmu (.small 2) .direct (pageStore (.small 2)) pcb 0 [] around.heap₂
          (some 1) first.2).map fun second => (first.1, second.1)) = some (6, 2))
      (by decide +kernel)
    obtain ⟨⟨fisicDirWrite, translated⟩, hwrite, hrest⟩ :=
      Option.bind_eq_some_iff.1 (of_decide_eq_true htest)
    obtain ⟨⟨fisicDirRead, after⟩, hread, hfacts⟩ := Option.map_eq_some_iff.1 hrest
    simp only [Prod.mk.injEq] at hfacts
    obtain ⟨rfl, rfl⟩ := hfacts
    let c : Copy (.small 2) .direct (pageStore (.small 2)) :=
      ⟨m, pcb, 4, 0, around, around, Memory.length_of_reachable hm, Memory.bounded_of_reachable hm⟩
    refine ⟨c, hm, ⟨rfl, rfl⟩, ⟨⟨⟨1, 0⟩, ⟨1, 0⟩, 6, 2, translated, after, hnamed, hnamed, hwrite,
      hread⟩, rfl, rfl⟩, ?_⟩
    rintro ⟨t, ⟨frame, hdestination⟩, -, -⟩
    have htold : t.fisicDirWrite = 6 :=
      congrArg Prod.fst (Option.some.inj (t.translatedWrite.symm.trans hwrite))
    have haddress : t.fisicDirWrite.toNat = frame * 8 + 4 := hdestination.address
    rw [htold] at haddress
    have hsix : (6 : Word).toNat = 6 := rfl
    omega

end Copy

end SistemasOperativos
