import SistemasOperativos.Proofs.ClockHands

/-!
# What a request for a frame does to the tables

`get_frame_number` on the page tables and the frame lists alone: which bytes are in the frames and
in the swap files makes no difference to them, in any state.  `ask` is what it does there.
-/

namespace SistemasOperativos

/-- The page leaves its frame, and is saved if it must be. -/
def PageEntry.dropped (page : PageEntry) : PageEntry :=
  { page with present := false, modified := page.modified && !page.present }

namespace Memory

variable {Swap : Type} {cfg : MemoryConfig} {host : Host} {store : SwapStore Swap}
  {m m' : Memory Swap} {k : ℕ} {checkModified : Bool} {new : PageId} {newPage : PageEntry}
  {pid : Word}

/-! ## The tables alone -/

/-- The state with no bytes but zeros, no swap files and no history. -/
def blank (m : Memory Swap) : Memory Unit where
  memory := List.replicate m.memory.length 0
  framesBitmap := m.framesBitmap
  level1Tables := m.level1Tables
  level2Tables := m.level2Tables
  processesFrames := m.processesFrames
  swap := ()

/-- The page `new` is now in the frame in entry `i` of frame list `k`. -/
def occupy (k i : ℕ) (frame : ℤ) (new : PageId) (m : Memory Swap) : Memory Swap :=
  (m.modifyPage new fun page => { page with present := true, frame := frame }).modifyFrame k i
    fun entry => { entry with pageData := some new }

/-- An entry of a frame list whose page is to go. -/
structure Victim where
  place : ℕ
  frame : ℤ
  page : PageId
deriving DecidableEq, Repr

/-- The page of the victim goes, the page `new` takes its frame, and the hand moves on. -/
def exchange (cfg : MemoryConfig) (k : ℕ) (new : PageId) (victim : Victim) (m : Memory Swap) :
    Memory Swap :=
  ((m.modifyPage victim.page PageEntry.dropped).occupy k victim.place victim.frame
    new).advanceClockHand cfg k

/-- What is under the hand of list `k`, and the page there. -/
def underHand (m : Memory Swap) (k : ℕ) : Option (Victim × PageEntry) :=
  m.processesFrames[k]? >>= fun process =>
    process.frames[process.clockHand]? >>= fun entry =>
      entry.pageData >>= fun old =>
        (m.page? old).map fun page => (⟨process.clockHand, entry.frame, old⟩, page)

/-- Where the turns that are left come to an end: the tables then, and the victim, if any. -/
def clockScan (cfg : MemoryConfig) (k : ℕ) (checkModified : Bool) :
    List ℕ → Memory Swap → Memory Swap × Option Victim
  | [], m => (m, none)
  | j :: rest, m =>
      match m.underHand k with
      | none => (m, none)
      | some (victim, page) =>
          match clockVerdict checkModified j page with
          | .replace => (m, some victim)
          | .clearUsed => clockScan cfg k checkModified rest
              ((m.modifyPage victim.page fun page => { page with used := false }).advanceClockHand
                cfg k)
          | .pass => clockScan cfg k checkModified rest (m.advanceClockHand cfg k)

/-- The turns of `two_clock_turns`. -/
def twoTurns (cfg : MemoryConfig) : List ℕ :=
  List.replicate cfg.framesPerProcess 0 ++ List.replicate cfg.framesPerProcess 1

/-- Where `replace_algorithm` comes to an end. -/
def scanEnd (cfg : MemoryConfig) (k : ℕ) (m : Memory Swap) : Memory Swap × Option Victim :=
  match cfg.replaceAlgorithm with
  | .clock => m.clockScan cfg k false (twoTurns cfg)
  | .clockM =>
      match m.clockScan cfg k true (twoTurns cfg) with
      | (m, some victim) => (m, some victim)
      | (m, none) => m.clockScan cfg k true (twoTurns cfg)

/-- The victim of a scan is exchanged.  With it goes the frame number that is told. -/
def settle (cfg : MemoryConfig) (k : ℕ) (new : PageId) :
    Memory Swap × Option Victim → Memory Swap × ℤ
  | (m, none) => (m, -1)
  | (m, some victim) => (m.exchange cfg k new victim, victim.frame)

/-- The tables after a request for the page `id`, and the frame number told. -/
def ask (cfg : MemoryConfig) (id : PageId) (found : Option ℕ) (m : Memory Swap) :
    Memory Swap × ℤ :=
  match m.page? id with
  | none => (m, -1)
  | some page =>
      if page.present then (m, page.frame)
      else
        match found >>= fun k => m.processesFrames[k]?.map fun process => (k, process) with
        | none => (m, -1)
        | some (k, process) =>
            if hasFreeFrame cfg process then
              match findFirstFreeFrame process with
              | none => (m, -1)
              | some (free, i) => (m.occupy k i free.frame id, free.frame)
            else settle cfg k id (m.scanEnd cfg k)

/-! ## One replacement -/

theorem modifyPage_modifyPage (id : PageId) (f g : PageEntry → PageEntry) :
    (m.modifyPage id f).modifyPage id g = m.modifyPage id (g ∘ f) := by
  simp [modifyPage, List.modify_modify_eq, Function.comp_def]

/-- An assignment to a page depends on the page that is there. -/
theorem modifyPage_congr {id : PageId} {page : PageEntry} {f g : PageEntry → PageEntry}
    (hpage : m.page? id = some page) (hfg : f page = g page) :
    m.modifyPage id f = m.modifyPage id g := by
  obtain ⟨entries, hentries, hentry⟩ := Option.bind_eq_some_iff.1 hpage
  have hmodified : entries.modify id.entry f = entries.modify id.entry g := by
    apply List.ext_getElem?
    intro i
    rw [List.getElem?_modify, List.getElem?_modify]
    by_cases hi : id.entry = i
    · subst hi
      simp [hentry, hfg]
    · simp [hi]
  have htables : (m.level2Tables.modify id.table fun entries => entries.modify id.entry f) =
      m.level2Tables.modify id.table fun entries => entries.modify id.entry g := by
    apply List.ext_getElem?
    intro i
    rw [List.getElem?_modify, List.getElem?_modify]
    by_cases hi : id.table = i
    · subst hi
      simp [hentries, hmodified]
    · simp [hi]
  rw [modifyPage, modifyPage, htables]

theorem writeBytes_blank {start : ℤ} {data : Bytes} (h : m.writeBytes start data = some m') :
    m'.blank = m.blank := by
  obtain ⟨memory, rfl, hlength⟩ := writeBytes_eq_some h
  simp only [blank, hlength]

theorem evict_blank {frame : ℤ} {old : PageId} {oldPage : PageEntry}
    (h : m.evict cfg host store frame old oldPage pid = some m')
    (hold : m.page? old = some oldPage) :
    m'.blank = m.blank.modifyPage old PageEntry.dropped := by
  have hblank : m.blank.page? old = some oldPage := hold
  unfold evict at h
  obtain ⟨saved, hsaved, rfl⟩ := Option.map_eq_some_iff.1 h
  split at hsaved
  · rename_i hdirty
    obtain ⟨written, hwritten, rfl⟩ := Option.map_eq_some_iff.1 hsaved
    unfold saveSwap at hwritten
    split at hwritten <;> cases hwritten
    show (m.blank.modifyPage old fun page => { page with modified := false }).modifyPage old
      (fun page => { page with present := false }) = _
    rw [modifyPage_modifyPage]
    exact modifyPage_congr hblank (by simp [PageEntry.dropped, hdirty])
  · rename_i hclean
    cases hsaved
    show (m.blank.modifyPage old fun page => { page with present := false }) = _
    apply modifyPage_congr hblank
    cases hpresent : oldPage.present <;> simp_all [PageEntry.dropped]

theorem replace_blank {i : ℕ} {frame : ℤ} {old : PageId} {oldPage : PageEntry}
    (h : m.replace cfg host store k i frame old oldPage new newPage pid = some m')
    (hold : m.page? old = some oldPage) :
    m'.blank = (m.blank.modifyPage old PageEntry.dropped).occupy k i frame new := by
  unfold replace at h
  split at h
  · cases h
  rename_i evicted hevicted
  split at h <;> cases h
  rename_i loaded hloaded
  have hblank := (writeBytes_blank hloaded).trans (evict_blank hevicted hold)
  rw [← hblank]
  rfl

/-! ## The turns -/

/-- An iteration looks at what is under the hand only. -/
theorem clockVisit_blank {j : ℕ} {frame : Option ℤ}
    (h : m.clockVisit cfg host store k checkModified new newPage pid j = some (m', frame)) :
    ∃ victim page, m.blank.underHand k = some (victim, page) ∧
      match clockVerdict checkModified j page with
      | .replace => frame = some victim.frame ∧ m'.blank = m.blank.exchange cfg k new victim
      | .clearUsed => frame = none ∧ m'.blank =
          (m.blank.modifyPage victim.page fun page =>
            { page with used := false }).advanceClockHand cfg k
      | .pass => frame = none ∧ m'.blank = m.blank.advanceClockHand cfg k := by
  unfold clockVisit at h
  split at h
  · cases h
  rename_i process hprocess
  split at h
  · cases h
  rename_i entry hentry
  split at h
  · cases h
  rename_i old hold
  split at h
  · cases h
  rename_i page hpage
  refine ⟨⟨process.clockHand, entry.frame, old⟩, page, ?_, ?_⟩
  · have hblank : m.blank.page? old = some page := hpage
    simp [underHand, blank, hprocess, hentry, hold]
    exact hblank
  · cases hverdict : clockVerdict checkModified j page with
    | replace =>
        simp only [hverdict] at h ⊢
        split at h <;> cases h
        rename_i m₁ hreplace
        exact ⟨rfl, congrArg (advanceClockHand cfg k) (replace_blank hreplace hpage)⟩
    | clearUsed =>
        simp only [hverdict] at h ⊢
        cases h
        exact ⟨rfl, rfl⟩
    | pass =>
        simp only [hverdict] at h ⊢
        cases h
        exact ⟨rfl, rfl⟩

/-- The turns do what the scan says. -/
theorem clockTurns_blank {turns : List ℕ} {frame : ℤ}
    (h : m.clockTurns cfg host store k checkModified new newPage pid turns = some (m', frame)) :
    (m'.blank, frame) = settle cfg k new (m.blank.clockScan cfg k checkModified turns) := by
  induction turns generalizing m with
  | nil =>
      cases h
      rfl
  | cons j rest ih =>
      rw [clockTurns] at h
      cases hvisit : m.clockVisit cfg host store k checkModified new newPage pid j with
      | none => simp [hvisit] at h
      | some visited =>
          obtain ⟨m₁, result⟩ := visited
          obtain ⟨victim, page, hunder, hverdict⟩ := clockVisit_blank hvisit
          simp only [hvisit] at h
          simp only [clockScan, hunder]
          cases hcase : clockVerdict checkModified j page with
          | replace =>
              simp only [hcase] at hverdict ⊢
              obtain ⟨rfl, hblank⟩ := hverdict
              cases h
              rw [hblank]
              rfl
          | clearUsed =>
              simp only [hcase] at hverdict ⊢
              obtain ⟨rfl, hblank⟩ := hverdict
              exact hblank ▸ ih h
          | pass =>
              simp only [hcase] at hverdict ⊢
              obtain ⟨rfl, hblank⟩ := hverdict
              exact hblank ▸ ih h

/-! ## What a scan leaves alone -/

/-- What clearing use bits and moving the hand keep, the state where a scan ends has. -/
theorem clockScan_invariant {motive : Memory Swap → Prop} {turns : List ℕ} (hm : motive m)
    (hclear : ∀ m old, motive m →
      motive (m.modifyPage old fun page => { page with used := false }))
    (hadvance : ∀ m, motive m → motive (m.advanceClockHand cfg k)) :
    motive (m.clockScan cfg k checkModified turns).1 := by
  induction turns generalizing m with
  | nil => exact hm
  | cons j rest ih =>
      rw [clockScan]
      split
      · exact hm
      split
      · exact hm
      · exact ih (hadvance _ (hclear _ _ hm))
      · exact ih (hadvance _ hm)

/-- The victim is under the hand where the scan ends. -/
theorem clockScan_underHand {turns : List ℕ} {victim : Victim}
    (h : (m.clockScan cfg k checkModified turns).2 = some victim) :
    ∃ page, (m.clockScan cfg k checkModified turns).1.underHand k = some (victim, page) := by
  induction turns generalizing m with
  | nil => cases h
  | cons j rest ih =>
      rw [clockScan] at h ⊢
      cases hunder : m.underHand k with
      | none => simp [hunder] at h
      | some found =>
          obtain ⟨victim', page'⟩ := found
          simp only [hunder] at h ⊢
          cases hcase : clockVerdict checkModified j page' with
          | replace =>
              simp only [hcase, Option.some.injEq] at h ⊢
              subst h
              exact ⟨page', hunder⟩
          | clearUsed =>
              simp only [hcase] at h ⊢
              exact ih h
          | pass =>
              simp only [hcase] at h ⊢
              exact ih h

/-- What is under the hand has one of the frames of the list. -/
theorem frame_of_underHand {victim : Victim} {page : PageEntry}
    (h : m.underHand k = some (victim, page)) :
    ∃ numbers, m.frameNumbers[k]? = some numbers ∧ victim.frame ∈ numbers := by
  simp only [underHand, Option.bind_eq_bind, Option.bind_eq_some_iff,
    Option.map_eq_some_iff] at h
  obtain ⟨process, hprocess, entry, hentry, old, hold, page', hpage, heq⟩ := h
  cases heq
  refine ⟨process.frames.map FrameEntry.frame, ?_,
    List.mem_map_of_mem (List.mem_of_getElem? hentry)⟩
  rw [frameNumbers, List.getElem?_map, hprocess]
  rfl

theorem clockScan_frameNumbers (cfg : MemoryConfig) (k : ℕ) (checkModified : Bool)
    (turns : List ℕ) (m : Memory Swap) :
    (m.clockScan cfg k checkModified turns).1.frameNumbers = m.frameNumbers := by
  have hkept : (m.clockScan cfg k checkModified turns).1.frameState = m.frameState :=
    clockScan_invariant (motive := fun m' => m'.frameState = m.frameState) rfl
      (fun _ _ hm => hm) fun _ hm => (frameState_advanceClockHand k).trans hm
  exact congrArg Prod.snd hkept

/-- The victim has one of the frames of the list. -/
theorem clockScan_frame {turns : List ℕ} {victim : Victim}
    (h : (m.clockScan cfg k checkModified turns).2 = some victim) :
    ∃ numbers, m.frameNumbers[k]? = some numbers ∧ victim.frame ∈ numbers := by
  obtain ⟨page, hunder⟩ := clockScan_underHand h
  obtain ⟨numbers, hlist, hmem⟩ := frame_of_underHand hunder
  exact ⟨numbers, clockScan_frameNumbers cfg k checkModified turns m ▸ hlist, hmem⟩

/-! ## The algorithm -/

/-- `replace_algorithm` exchanges the victim, in a list whose entries all have a frame. -/
theorem replaceAlgorithm_blank {frame : ℤ}
    (h : m.replaceAlgorithm cfg host store k new newPage pid = some (m', frame))
    (hassigned : ∀ numbers ∈ m.frameNumbers[k]?, -1 ∉ numbers) :
    (m'.blank, frame) = settle cfg k new (m.blank.scanEnd cfg k) := by
  unfold replaceAlgorithm at h
  unfold scanEnd
  cases hcfg : cfg.replaceAlgorithm with
  | clock =>
      simp only [hcfg] at h ⊢
      exact clockTurns_blank h
  | clockM =>
      simp only [hcfg] at h ⊢
      split at h
      · cases h
      rename_i m₁ frame₁ hfirst
      have hblank := clockTurns_blank hfirst
      cases hscan : m.blank.clockScan cfg k true (twoTurns cfg) with
      | mk scanned found =>
          rw [show List.replicate cfg.framesPerProcess 0 ++ List.replicate cfg.framesPerProcess 1 =
            twoTurns cfg from rfl, hscan] at hblank
          cases found with
          | some victim =>
              -- A frame was found, and it is no -1: the second pair of turns is not made.
              obtain ⟨numbers, hlist, hmem⟩ := clockScan_frame (congrArg Prod.snd hscan)
              have htold : frame₁ = victim.frame := congrArg Prod.snd hblank
              have hframe : frame₁ ≠ -1 := fun hnone =>
                hassigned numbers hlist (hnone ▸ htold ▸ hmem)
              rw [if_pos hframe] at h
              cases h
              exact hblank
          | none =>
              have htold : frame₁ = -1 := congrArg Prod.snd hblank
              have hsame : m₁.blank = scanned := congrArg Prod.fst hblank
              rw [if_neg (by simp [htold])] at h
              have hagain := clockTurns_blank h
              rw [hsame] at hagain
              exact hagain

/-! ## The request -/

/-- No process has more entries than it may have frames. -/
def Bounded (cfg : MemoryConfig) (m : Memory Swap) : Prop :=
  ∀ process ∈ m.processesFrames, process.frames.length ≤ cfg.framesPerProcess

theorem Bounded.of_frameState (hm : m.Bounded cfg) (h : m'.frameState = m.frameState) :
    m'.Bounded cfg := by
  have hnumbers : m'.frameNumbers.map List.length = m.frameNumbers.map List.length :=
    congrArg (fun state => state.2.map List.length) h
  simp only [frameNumbers, List.map_map, Function.comp_def, List.length_map] at hnumbers
  intro process hmem
  have hlength : process.frames.length ∈
      m'.processesFrames.map fun process => process.frames.length :=
    List.mem_map_of_mem hmem
  rw [hnumbers] at hlength
  obtain ⟨process', hmem', heq⟩ := List.mem_map.1 hlength
  exact heq ▸ hm process' hmem'

/-- A process without a free frame has a frame in every entry. -/
theorem Bounded.assigned (hm : m.Bounded cfg) {process : ProcessFrame}
    (hprocess : m.processesFrames[k]? = some process)
    (hfree : hasFreeFrame cfg process = false) :
    ∀ numbers ∈ m.frameNumbers[k]?, -1 ∉ numbers := by
  intro numbers hnumbers hmem
  rw [frameNumbers, List.getElem?_map, hprocess] at hnumbers
  cases hnumbers
  have hfull := (assigned_of_full (hm process (List.mem_of_getElem? hprocess)) hfree).2
  obtain ⟨entry, hentry, hnone⟩ := List.mem_map.1 hmem
  have hassigned := hfull entry hentry
  simp [FrameEntry.assigned, hnone] at hassigned

/-- `get_frame_number` does to the tables what `ask` does. -/
theorem getFrameNumber_blank {id : PageId} {found : Option ℕ} {number : ℤ}
    (h : m.getFrameNumber cfg host store id pid found = some (m', number))
    (hm : m.Bounded cfg) : (m'.blank, number) = m.blank.ask cfg id found := by
  unfold getFrameNumber at h
  split at h
  · cases h
  rename_i page hpage
  have hblank : m.blank.page? id = some page := hpage
  cases hpresent : page.present with
  | true =>
      rw [if_pos hpresent] at h
      cases h
      simp [ask, hblank, hpresent]
  | false =>
      rw [if_neg (by simp [hpresent])] at h
      split at h
      · cases h
      rename_i k
      split at h
      · cases h
      rename_i process hprocess
      have hlist : m.blank.processesFrames[k]? = some process := hprocess
      cases hfree : hasFreeFrame cfg process with
      | true =>
          rw [if_pos hfree] at h
          split at h
          · rename_i hfirst
            cases h
            simp [ask, hblank, hpresent, hlist, hfree, hfirst]
          · rename_i free i hfirst
            cases h
            simp only [ask, hblank, hpresent, Bool.false_eq_true, if_false, Option.bind_eq_bind,
              Option.bind_some, hlist, Option.map_some, hfree, if_true, hfirst]
            rfl
      | false =>
          rw [if_neg (by simp [hfree])] at h
          simp only [ask, hblank, hpresent, Bool.false_eq_true, if_false, Option.bind_eq_bind,
            Option.bind_some, hlist, Option.map_some, hfree]
          exact replaceAlgorithm_blank h (hm.assigned hprocess hfree)

/-! ## Resident pages -/

/-- The frame of a resident page. -/
def residentFrame (m : Memory Swap) (id : PageId) : Option ℤ :=
  m.page? id >>= fun page => if page.present then some page.frame else none

/-- The page that is taken out for a request, if there is one. -/
def takenOut (cfg : MemoryConfig) (m : Memory Swap) (id : PageId) (found : Option ℕ) :
    Option PageId :=
  match m.page? id with
  | none => none
  | some page =>
      if page.present then none
      else
        match found >>= fun k => m.processesFrames[k]?.map fun process => (k, process) with
        | none => none
        | some (k, process) =>
            if hasFreeFrame cfg process then none else (m.scanEnd cfg k).2.map Victim.page

/-- The frame of each page after a request for the page `id`: the one told for `id` itself, none
for the page taken out, and for others the one they had. -/
def residentAfter (cfg : MemoryConfig) (m : Memory Swap) (id : PageId) (found : Option ℕ)
    (id' : PageId) : Option ℤ :=
  if (m.ask cfg id found).2 = -1 then m.residentFrame id'
  else if id' = id then some (m.ask cfg id found).2
  else if m.takenOut cfg id found = some id' then none
  else m.residentFrame id'

/-- Whether each page is present, and in which frame it is or was. -/
def placement (m : Memory Swap) (id : PageId) : Option (Bool × ℤ) :=
  (m.page? id).map fun page => (page.present, page.frame)

theorem residentFrame_of_placement {id : PageId} (h : m'.placement id = m.placement id) :
    m'.residentFrame id = m.residentFrame id := by
  have hplaced : ∀ m : Memory Swap, m.residentFrame id =
      m.placement id >>= fun placed => if placed.1 then some placed.2 else none := by
    intro m
    rw [residentFrame, placement]
    cases m.page? id <;> rfl
  rw [hplaced, hplaced, h]

theorem clockScan_placement (cfg : MemoryConfig) (k : ℕ) (checkModified : Bool)
    (turns : List ℕ) (m : Memory Swap) :
    (m.clockScan cfg k checkModified turns).1.placement = m.placement := by
  refine clockScan_invariant (motive := fun m' => m'.placement = m.placement) rfl
    (fun m' old hm => ?_) fun _ hm => hm
  funext id
  rw [← hm, placement, placement, page?_modifyPage]
  split
  · rw [Option.map_map]
    rfl
  · rfl

theorem scanEnd_placement (cfg : MemoryConfig) (k : ℕ) (m : Memory Swap) :
    (m.scanEnd cfg k).1.placement = m.placement := by
  unfold scanEnd
  split
  · exact clockScan_placement ..
  · have hfirst := clockScan_placement cfg k true (twoTurns cfg) m
    split
    · rename_i hscan
      rw [hscan] at hfirst
      exact hfirst
    · rename_i hscan
      rw [hscan] at hfirst
      exact (clockScan_placement ..).trans hfirst

/-- The victim has one of the frames of the list. -/
theorem scanEnd_frame {victim : Victim} (h : (m.scanEnd cfg k).2 = some victim) :
    ∃ numbers, m.frameNumbers[k]? = some numbers ∧ victim.frame ∈ numbers := by
  unfold scanEnd at h
  split at h
  · exact clockScan_frame h
  · split at h
    · rename_i hscan
      exact clockScan_frame ((congrArg Prod.snd hscan).trans h)
    · rename_i scanned hscan
      obtain ⟨numbers, hlist, hmem⟩ := clockScan_frame h
      refine ⟨numbers, ?_, hmem⟩
      rw [← hlist, ← clockScan_frameNumbers cfg k true (twoTurns cfg) m, hscan]

/-- A page becomes resident. -/
theorem residentFrame_occupy (k i : ℕ) (frame : ℤ) (hnew : (m.page? new).isSome = true)
    (id : PageId) : (m.occupy k i frame new).residentFrame id =
      if id = new then some frame else m.residentFrame id := by
  have hlookup : (m.occupy k i frame new).page? id = _ :=
    page?_modifyPage new id fun page => { page with present := true, frame := frame }
  rw [residentFrame, residentFrame, hlookup]
  by_cases hid : id = new
  · obtain ⟨page, hpage⟩ := Option.isSome_iff_exists.1 hnew
    simp [hid, hpage]
  · simp [hid, Ne.symm hid]

/-- The victim's page becomes absent. -/
theorem residentFrame_exchange {victim : Victim} (hnew : (m.page? new).isSome = true)
    (id : PageId) : (m.exchange cfg k new victim).residentFrame id =
      if id = new then some victim.frame
      else if id = victim.page then none
      else m.residentFrame id := by
  have hdropped : ∀ id, (m.modifyPage victim.page PageEntry.dropped).residentFrame id =
      if id = victim.page then none else m.residentFrame id := by
    intro id
    rw [residentFrame, residentFrame, page?_modifyPage]
    by_cases hid : id = victim.page
    · subst hid
      cases m.page? victim.page <;> simp [PageEntry.dropped]
    · simp [hid, Ne.symm hid]
  have hfound : ((m.modifyPage victim.page PageEntry.dropped).page? new).isSome = true := by
    rw [page?_modifyPage]
    split
    · rw [Option.isSome_map, hnew]
    · exact hnew
  refine (residentFrame_occupy k victim.place victim.frame hfound id).trans ?_
  rw [hdropped]

/-- What a request comes to: nothing, a frame the page has, a free frame, a frame that is vacated,
or turns of the clock in vain. -/
inductive Asked (cfg : MemoryConfig) (m : Memory Swap) (id : PageId) (found : Option ℕ) : Prop
  | nothing (hask : m.ask cfg id found = (m, -1)) (htaken : m.takenOut cfg id found = none)
  | resident (frame : ℤ) (hresident : m.residentFrame id = some frame)
      (hask : m.ask cfg id found = (m, frame)) (htaken : m.takenOut cfg id found = none)
  | free (k i : ℕ) (frame : ℤ) (hframe : frame ≠ -1) (hpage : (m.page? id).isSome = true)
      (hask : m.ask cfg id found = (m.occupy k i frame id, frame))
      (htaken : m.takenOut cfg id found = none)
  | vacated (k : ℕ) (victim : Victim) (hframe : victim.frame ≠ -1)
      (hpage : (m.page? id).isSome = true)
      (hask : m.ask cfg id found =
        ((m.scanEnd cfg k).1.exchange cfg k id victim, victim.frame))
      (htaken : m.takenOut cfg id found = some victim.page)
  | inVain (k : ℕ) (hask : m.ask cfg id found = ((m.scanEnd cfg k).1, -1))
      (htaken : m.takenOut cfg id found = none)

theorem asked (hm : m.Bounded cfg) (id : PageId) (found : Option ℕ) : Asked cfg m id found := by
  cases hpage : m.page? id with
  | none =>
      exact .nothing (by simp [ask, hpage]) (by simp [takenOut, hpage])
  | some page =>
      cases hpresent : page.present with
      | true =>
          have hresident : m.residentFrame id = some page.frame := by
            simp [residentFrame, hpage, hpresent]
          exact .resident page.frame hresident (by simp [ask, hpage, hpresent])
            (by simp [takenOut, hpage, hpresent])
      | false =>
          have hsome : (m.page? id).isSome = true := by
            rw [hpage]
            rfl
          cases hlist : found >>= fun k =>
              m.processesFrames[k]?.map fun process => (k, process) with
          | none =>
              exact .nothing (by simp only [ask, hpage, hpresent, hlist]; rfl)
                (by simp only [takenOut, hpage, hpresent, hlist]; rfl)
          | some list =>
              obtain ⟨k, process⟩ := list
              obtain ⟨k', -, hk'⟩ := Option.bind_eq_some_iff.1 hlist
              obtain ⟨process', hprocess, heq⟩ := Option.map_eq_some_iff.1 hk'
              cases heq
              cases hfree : hasFreeFrame cfg process with
              | true =>
                  have htaken : m.takenOut cfg id found = none := by
                    simp [takenOut, hpage, hpresent, hlist, hfree]
                  cases hfirst : findFirstFreeFrame process with
                  | none =>
                      exact .nothing (by simp [ask, hpage, hpresent, hlist, hfree, hfirst]) htaken
                  | some free =>
                      have hassigned : free.1.frame ≠ -1 := by
                        simpa [FrameEntry.assigned] using List.find?_some hfirst
                      exact .free k free.2 free.1.frame hassigned hsome
                        (by simp [ask, hpage, hpresent, hlist, hfree, hfirst]) htaken
              | false =>
                  have htaken : m.takenOut cfg id found = (m.scanEnd cfg k).2.map Victim.page := by
                    simp [takenOut, hpage, hpresent, hlist, hfree]
                  have hask : m.ask cfg id found = settle cfg k id (m.scanEnd cfg k) := by
                    simp [ask, hpage, hpresent, hlist, hfree]
                  cases hend : m.scanEnd cfg k with
                  | mk scanned victim =>
                      have hscanned : scanned = (m.scanEnd cfg k).1 := by rw [hend]
                      rw [hend] at hask htaken
                      cases victim with
                      | none =>
                          exact .inVain k (hask.trans (by rw [hscanned]; rfl)) htaken
                      | some victim =>
                          obtain ⟨numbers, hnumbers, hmem⟩ :=
                            scanEnd_frame (congrArg Prod.snd hend)
                          have hassigned : victim.frame ≠ -1 := fun hnone =>
                            hm.assigned hprocess hfree numbers hnumbers (hnone ▸ hmem)
                          exact .vacated k victim hassigned hsome
                            (hask.trans (by rw [hscanned]; rfl)) htaken

/-- After a request the pages are where they should be. -/
theorem ask_residentFrame (hm : m.Bounded cfg) (id : PageId) (found : Option ℕ) (id' : PageId) :
    (m.ask cfg id found).1.residentFrame id' = m.residentAfter cfg id found id' := by
  unfold residentAfter
  cases asked hm id found with
  | nothing hask htaken => simp [hask]
  | resident frame hresident hask htaken =>
      rw [hask, htaken]
      split
      · rfl
      split
      · rename_i heq
        rw [heq, hresident]
      · simp
  | free k i frame hframe hpage hask htaken =>
      simp only [hask, htaken, if_neg hframe, residentFrame_occupy k i frame hpage]
      simp
  | vacated k victim hframe hpage hask htaken =>
      have hplaced := scanEnd_placement cfg k m
      have hfound : ((m.scanEnd cfg k).1.page? id).isSome = true := by
        have hsome := congrArg (fun placement => (placement id).isSome) hplaced
        simp only [placement, Option.isSome_map] at hsome
        rw [hsome, hpage]
      have hkept := residentFrame_of_placement (congrFun hplaced id')
      simp only [hask, htaken, if_neg hframe, residentFrame_exchange hfound, hkept,
        Option.some.injEq, eq_comm (a := victim.page)]
  | inVain k hask htaken =>
      have hkept := residentFrame_of_placement (congrFun (scanEnd_placement cfg k m) id')
      simp [hask, hkept]

/-- The level-1 tables and the memory are what they were. -/
structure SameOutline (m m' : Memory Swap) : Prop where
  level1Tables : m'.level1Tables = m.level1Tables
  memory : m'.memory = m.memory

theorem SameOutline.trans {m'' : Memory Swap} (h : SameOutline m m') (h' : SameOutline m' m'') :
    SameOutline m m'' :=
  ⟨h'.level1Tables.trans h.level1Tables, h'.memory.trans h.memory⟩

theorem clockScan_outline (cfg : MemoryConfig) (k : ℕ) (checkModified : Bool) (turns : List ℕ)
    (m : Memory Swap) : SameOutline m (m.clockScan cfg k checkModified turns).1 :=
  clockScan_invariant (motive := SameOutline m) ⟨rfl, rfl⟩
    (fun _ _ hm => ⟨hm.level1Tables, hm.memory⟩) fun _ hm => ⟨hm.level1Tables, hm.memory⟩

theorem scanEnd_outline (cfg : MemoryConfig) (k : ℕ) (m : Memory Swap) :
    SameOutline m (m.scanEnd cfg k).1 := by
  unfold scanEnd
  split
  · exact clockScan_outline ..
  · have hfirst := clockScan_outline cfg k true (twoTurns cfg) m
    split
    · rename_i hscan
      rw [hscan] at hfirst
      exact hfirst
    · rename_i scanned hscan
      rw [hscan] at hfirst
      exact hfirst.trans (clockScan_outline cfg k true (twoTurns cfg) scanned)

/-- A request leaves the level-1 tables and the size of the memory alone. -/
theorem ask_outline (hm : m.Bounded cfg) (id : PageId) (found : Option ℕ) :
    SameOutline m (m.ask cfg id found).1 := by
  cases asked hm id found with
  | nothing hask htaken => exact hask ▸ ⟨rfl, rfl⟩
  | resident frame hresident hask htaken => exact hask ▸ ⟨rfl, rfl⟩
  | free k i frame hframe hpage hask htaken => exact hask ▸ ⟨rfl, rfl⟩
  | vacated k victim hframe hpage hask htaken =>
      have hscanned := scanEnd_outline cfg k m
      exact hask ▸ ⟨hscanned.level1Tables, hscanned.memory⟩
  | inVain k hask htaken => exact hask ▸ scanEnd_outline cfg k m

theorem SameOutline.of_blank (h : SameOutline m.blank m'.blank) :
    m'.level1Tables = m.level1Tables ∧ m'.memory.length = m.memory.length := by
  have hlength := congrArg List.length h.memory
  rw [blank, blank, List.length_replicate, List.length_replicate] at hlength
  exact ⟨h.level1Tables, hlength⟩

/-! ## Reachable states -/

theorem bounded_of_reachable {swap : Swap}
    (hm : (memoryModule cfg host store swap).Reachable m) : m.Bounded cfg :=
  fun process hmem => (handsFirst_of_reachable hm process hmem).1

theorem suspendEntry_length {k : ℕ} {id : PageId}
    (h : m.suspendEntry cfg host store pid k id = some m') :
    m'.memory.length = m.memory.length := by
  unfold suspendEntry at h
  split at h
  · cases h
  simp only at h
  split at h
  · cases h
  rename_i saved hsaved
  obtain ⟨bitmap, processes, rfl, -⟩ := unassignProcessFrames_eq h
  split at hsaved
  · obtain ⟨written, hwritten, rfl⟩ := Option.map_eq_some_iff.1 hsaved
    unfold saveSwap at hwritten
    split at hwritten <;> cases hwritten
    rfl
  · cases hsaved
    rfl

/-- The memory keeps its size. -/
theorem length_of_reachable {swap : Swap}
    (hm : (memoryModule cfg host store swap).Reachable m) :
    m.memory.length = cfg.memorySize := by
  refine hm.invariant_of (fun _ => bounded_of_reachable) List.length_replicate
    fun action m m' _ hbounded hm h => ?_
  obtain ⟨⟨m₁, answer⟩, hhandle, rfl⟩ := Option.map_eq_some_iff.1 h
  refine handle_elim (motive := fun m' => m'.memory.length = cfg.memorySize) hhandle ?create
    ?suspend ?exit ?access (fun _ hlength => hlength.trans hm) hm
  case create =>
    intro pid processSize _
    unfold processNew
    split
    · exact hm
    · simp only [assignProcessFrames, pageTableInit, addLevel2Tables_eq]
      exact hm
  case suspend =>
    intro pid pt1Index processFramesIndex m' _ h
    exact processSuspend_invariant h (fun _ _ _ hm h => (suspendEntry_length h).trans hm) hm
  case exit =>
    intro pid pt1Index processFramesIndex m' _ h
    rcases processExit_eq_some h with rfl | ⟨released, hreleased, rfl⟩
    · exact hm
    · obtain ⟨bitmap, processes, rfl, -⟩ := unassignProcessFrames_eq hreleased
      exact hm
  case access =>
    intro pid pt2Index entryIndex processFramesIndex found m' frame _ hframe
    have hblank : m.blank.Bounded cfg := hbounded
    obtain ⟨-, hlength⟩ := SameOutline.of_blank
      (congrArg Prod.fst (getFrameNumber_blank hframe hbounded) ▸ ask_outline hblank _ found)
    exact hlength.trans hm

end Memory

end SistemasOperativos
