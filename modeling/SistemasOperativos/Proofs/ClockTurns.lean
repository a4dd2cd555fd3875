import SistemasOperativos.Library.Clock
import SistemasOperativos.Proofs.PageContents
import Mathlib.Data.List.Nodup

/-!
# What the clock replaces

The frame list of a process that has all its frames, each with a page, is a clock: its entries
are the slots and its hand is the hand.  The turns of `two_clock_turns` follow the loop of that
clock bit by bit, so `replace_algorithm` replaces the page the textbook algorithm chooses, after
it has cleared the use bits of the pages the hand has passed.
-/

namespace SistemasOperativos.Memory

variable {Swap : Type} {cfg : MemoryConfig} {host : Host} {store : SwapStore Swap}
  {m : Memory Swap} {k : ℕ} {process : ProcessFrame} {c : Clock PageId}

/-! ## Frame lists as clocks -/

/-- The page in an entry of a frame list, with its bits. -/
def clockSlot (m : Memory Swap) (entry : FrameEntry) : Option (Slot PageId) :=
  entry.pageData >>= fun id => (m.page? id).map fun page => ⟨id, page.used, page.modified⟩

/-- Frame list `k` has a page in each of its entries, no page twice, and is the clock `c`. -/
structure IsClock (m : Memory Swap) (k : ℕ) (process : ProcessFrame) (c : Clock PageId) :
    Prop where
  list : m.processesFrames[k]? = some process
  hand : process.clockHand = c.hand
  slots : process.frames.map m.clockSlot = c.slots.map some
  pages : (c.slots.map Slot.page).Nodup

/-- The clock of a process that has all the frames it may have, which are all there are. -/
structure FullClock (cfg : MemoryConfig) (m : Memory Swap) (k : ℕ) (process : ProcessFrame)
    (c : Clock PageId) : Prop extends IsClock m k process c where
  perProcess : c.slots.length = cfg.framesPerProcess
  inMemory : cfg.framesPerProcess = cfg.framesInMemory
  frames : ∀ entry ∈ process.frames, 0 ≤ entry.frame
  hand_lt : c.hand < c.slots.length

/-- The clock hand of frame list `k` is set. -/
def setClockHand (k hand : ℕ) (m : Memory Swap) : Memory Swap :=
  { m with
    processesFrames := m.processesFrames.modify k fun process =>
      { process with clockHand := hand } }

/-- The use bits of some pages are cleared. -/
def clearUsed (ids : List PageId) (m : Memory Swap) : Memory Swap :=
  ids.foldl (fun m id => m.modifyPage id fun page => { page with used := false }) m

@[simp] theorem clearUsed_nil : m.clearUsed [] = m := rfl

theorem clearUsed_cons (id : PageId) (ids : List PageId) :
    m.clearUsed (id :: ids) =
      (m.modifyPage id fun page => { page with used := false }).clearUsed ids := rfl

theorem clearUsed_append (ids ids' : List PageId) :
    m.clearUsed (ids ++ ids') = (m.clearUsed ids).clearUsed ids' :=
  List.foldl_append

theorem clearUsed_page? (ids : List PageId) (id : PageId) :
    (m.clearUsed ids).page? id =
      (m.page? id).map fun page => if id ∈ ids then { page with used := false } else page := by
  induction ids generalizing m with
  | nil => simp
  | cons id' ids ih =>
      rw [clearUsed_cons, ih, page?_modifyPage]
      by_cases heq : id' = id
      · subst heq
        cases m.page? id' <;> simp
      · have hne : id ≠ id' := Ne.symm heq
        simp [heq, hne]

/-- The entry, the page and its fields that are in a slot of the clock. -/
theorem IsClock.entry (h : m.IsClock k process c) {i : ℕ} {slot : Slot PageId}
    (hslot : c.slots[i]? = some slot) : ∃ entry page, process.frames[i]? = some entry ∧
      entry.pageData = some slot.page ∧ m.page? slot.page = some page ∧
        page.used = slot.used ∧ page.modified = slot.modified := by
  have hmap := congrArg (·[i]?) h.slots
  simp only [List.getElem?_map, hslot, Option.map_some, Option.map_eq_some_iff] at hmap
  obtain ⟨entry, hentry, hheld⟩ := hmap
  simp only [clockSlot, Option.bind_eq_bind, Option.bind_eq_some_iff,
    Option.map_eq_some_iff] at hheld
  obtain ⟨id, hid, page, hpage, rfl⟩ := hheld
  exact ⟨entry, page, hentry, hid, hpage, rfl, rfl⟩

/-! ## The hand alone -/

@[simp] theorem setClockHand_page? (hand : ℕ) (id : PageId) :
    (m.setClockHand k hand).page? id = m.page? id := rfl

@[simp] theorem setClockHand_setClockHand (hand hand' : ℕ) :
    (m.setClockHand k hand).setClockHand k hand' = m.setClockHand k hand' := by
  simp [setClockHand, List.modify_modify_eq, Function.comp_def]

/-- Setting the hand to where it is changes nothing. -/
theorem setClockHand_self (hlist : m.processesFrames[k]? = some process) :
    m.setClockHand k process.clockHand = m := by
  have hlists : (m.processesFrames.modify k fun old : ProcessFrame =>
      { old with clockHand := process.clockHand }) = m.processesFrames := by
    apply List.ext_getElem?
    intro i
    rw [List.getElem?_modify]
    by_cases hi : k = i
    · subst hi
      simp [hlist]
    · simp [hi]
  rw [setClockHand, hlists]

@[simp] theorem advanceClockHand_setClockHand (hand : ℕ) :
    (m.setClockHand k hand).advanceClockHand cfg k =
      m.setClockHand k (incrementClockHand cfg hand) := by
  simp [advanceClockHand, setClockHand, List.modify_modify_eq, Function.comp_def]

theorem advanceClockHand_eq (hlist : m.processesFrames[k]? = some process) :
    m.advanceClockHand cfg k = m.setClockHand k (incrementClockHand cfg process.clockHand) := by
  calc m.advanceClockHand cfg k
      = (m.setClockHand k process.clockHand).advanceClockHand cfg k := by
        rw [setClockHand_self hlist]
    _ = m.setClockHand k (incrementClockHand cfg process.clockHand) :=
        advanceClockHand_setClockHand process.clockHand

theorem clearUsed_setClockHand (hand : ℕ) (ids : List PageId) :
    (m.setClockHand k hand).clearUsed ids = (m.clearUsed ids).setClockHand k hand := by
  induction ids generalizing m with
  | nil => rfl
  | cons id ids ih =>
      rw [clearUsed_cons, clearUsed_cons, ← ih]
      rfl

/-- The modifications of an entry and of the hand of a list do not meet. -/
theorem modifyFrame_setClockHand (hand j i : ℕ) (f : FrameEntry → FrameEntry) :
    (m.setClockHand k hand).modifyFrame j i f = (m.modifyFrame j i f).setClockHand k hand := by
  have hlists : ∀ lists : List ProcessFrame,
      (lists.modify k fun process => { process with clockHand := hand }).modify j
          (fun process => { process with frames := process.frames.modify i f }) =
        (lists.modify j fun process => { process with frames := process.frames.modify i f }).modify
          k fun process => { process with clockHand := hand } := by
    intro lists
    by_cases hkj : k = j
    · subst hkj
      simp [List.modify_modify_eq, Function.comp_def]
    · rw [List.modify_modify_ne _ _ _ hkj]
  simp [modifyFrame, setClockHand, hlists]

theorem evict_setClockHand (hand : ℕ) {frame : ℤ} {old : PageId} {page : PageEntry}
    {pid : Word} : (m.setClockHand k hand).evict cfg host store frame old page pid =
      (m.evict cfg host store frame old page pid).map (setClockHand k hand) := by
  unfold evict saveSwap
  have hbytes : (m.setClockHand k hand).frameBytes cfg frame = m.frameBytes cfg frame := rfl
  rw [hbytes]
  by_cases hsaved : page.present ∧ page.modified
  · simp only [hsaved, and_self, if_true]
    cases host.pageAt (m.frameBytes cfg frame) <;> rfl
  · simp only [hsaved, if_false]
    rfl

theorem getSwap_setClockHand (hand : ℕ) {frame : Word} {page : ℕ} {pid : Word} :
    (m.setClockHand k hand).getSwap cfg host store frame page pid =
      (m.getSwap cfg host store frame page pid).map (setClockHand k hand) := by
  unfold getSwap writeBytes
  by_cases hinside : 0 ≤ (frame * BitVec.ofNat 32 cfg.pageSize).toInt ∧
      (frame * BitVec.ofNat 32 cfg.pageSize).toInt.toNat +
        (host.valueBytes (store.swapGetPage pid page m.swap)).length ≤ m.memory.length
  · rw [if_pos hinside]
    exact if_pos hinside
  · rw [if_neg hinside]
    exact if_neg hinside

/-- `_replace` does not look at the hand. -/
theorem replace_setClockHand (hand : ℕ) {j i : ℕ} {frame : ℤ} {old new : PageId}
    {oldPage newPage : PageEntry} {pid : Word} :
    (m.setClockHand k hand).replace cfg host store j i frame old oldPage new newPage pid =
      (m.replace cfg host store j i frame old oldPage new newPage pid).map
        (setClockHand k hand) := by
  unfold replace
  rw [evict_setClockHand]
  cases m.evict cfg host store frame old oldPage pid with
  | none => rfl
  | some m₁ =>
      simp only [Option.map_some]
      rw [getSwap_setClockHand]
      cases m₁.getSwap cfg host store (host.frameEntryAddress j i) newPage.page pid with
      | none => rfl
      | some m₂ =>
          simp only [Option.map_some, Option.some.injEq]
          have hframe := modifyFrame_setClockHand (k := k) (m := m₂.modifyPage new fun page =>
            { page with present := true, frame := frame }) hand j i fun entry =>
              { entry with pageData := some new }
          calc _ = { ((m₂.modifyPage new fun page =>
                    { page with present := true, frame := frame }).setClockHand k
                      hand).modifyFrame j i (fun entry => { entry with pageData := some new })
                  with
                  history := m₂.history ++ [PageEvent.loaded new (m₂.frameBytes cfg frame)] } := rfl
            _ = _ := by rw [hframe]; rfl

/-- The hand moves on after `_replace`. -/
theorem replace_advanceClockHand (hlist : m.processesFrames[k]? = some process) {j i : ℕ}
    {frame : ℤ} {old new : PageId} {oldPage newPage : PageEntry} {pid : Word} :
    (m.replace cfg host store j i frame old oldPage new newPage pid).map
        (advanceClockHand cfg k) =
      (m.replace cfg host store j i frame old oldPage new newPage pid).map
        (setClockHand k (incrementClockHand cfg process.clockHand)) := by
  have hself : (m.setClockHand k process.clockHand).replace cfg host store j i frame old oldPage
      new newPage pid = (m.replace cfg host store j i frame old oldPage new newPage pid).map
        (setClockHand k process.clockHand) := replace_setClockHand process.clockHand
  rw [setClockHand_self hlist] at hself
  rw [hself, Option.map_map, Option.map_map]
  congr 1
  funext m'
  simp

/-! ## One frame under the hand -/

/-- The tests of `two_clock_turns` are those of the loop of a clock. -/
theorem clockVerdict_eq (checkModified : Bool) (j : ℕ) {page : PageEntry} {slot : Slot PageId}
    (hused : page.used = slot.used) (hmodified : page.modified = slot.modified) :
    clockVerdict checkModified j page =
      if Clock.takes checkModified j slot then .replace
      else if Clock.clears checkModified j slot then .clearUsed
      else .pass := by
  rw [clockVerdict, Clock.takes, Clock.clears, hused, hmodified]
  by_cases hj : j = 1
  · subst hj
    cases checkModified <;> cases slot.used <;> cases slot.modified <;> rfl
  · have hj' : (j == 1) = false := by simpa using hj
    cases checkModified <;> cases slot.used <;> cases slot.modified <;> simp [hj, hj']

theorem incrementClockHand_eq (hand : ℕ) :
    incrementClockHand cfg hand = (hand + 1) % cfg.framesInMemory := by
  rw [incrementClockHand]
  split
  · rfl
  · rw [Nat.mod_eq_of_lt (by omega)]

/-- One iteration of `two_clock_turns`, on the slot under the hand. -/
theorem clockVisit_eq (host : Host) (store : SwapStore Swap) (h : m.IsClock k process c)
    {slot : Slot PageId}
    (hslot : c.slots[c.hand]? = some slot) (checkModified : Bool) (j : ℕ) (new : PageId)
    (newPage : PageEntry) (pid : Word) :
    ∃ entry page, process.frames[c.hand]? = some entry ∧ entry.pageData = some slot.page ∧
      m.page? slot.page = some page ∧ page.used = slot.used ∧
      m.clockVisit cfg host store k checkModified new newPage pid j =
        if Clock.takes checkModified j slot then
          (m.replace cfg host store k c.hand entry.frame slot.page page new newPage pid).map
            fun m => (m.setClockHand k (incrementClockHand cfg c.hand), some entry.frame)
        else
          some ((m.clearUsed (if Clock.clears checkModified j slot then [slot.page]
            else [])).setClockHand k (incrementClockHand cfg c.hand), none) := by
  obtain ⟨entry, page, hentry, hheld, hpage, hused, hmodified⟩ := h.entry hslot
  refine ⟨entry, page, hentry, hheld, hpage, hused, ?_⟩
  have hcleared : (m.modifyPage slot.page fun page => { page with used := false }).processesFrames =
      m.processesFrames := rfl
  rw [clockVisit]
  simp only [h.list, h.hand, hentry, hheld, hpage, clockVerdict_eq checkModified j hused hmodified]
  by_cases htakes : Clock.takes checkModified j slot = true
  · simp only [htakes, if_true]
    have hadvance : (m.replace cfg host store k c.hand entry.frame slot.page page new newPage
          pid).map (advanceClockHand cfg k) = _ := replace_advanceClockHand h.list
    rw [h.hand] at hadvance
    cases hreplace : m.replace cfg host store k c.hand entry.frame slot.page page new newPage
      pid with
    | none => rfl
    | some m' =>
        rw [hreplace, Option.map_some, Option.map_some, Option.some.injEq] at hadvance
        simp [hadvance]
  · by_cases hclears : Clock.clears checkModified j slot = true
    · simp only [htakes, hclears, if_true, if_false, Bool.false_eq_true]
      rw [advanceClockHand_eq (hcleared ▸ h.list), h.hand]
      rfl
    · simp only [htakes, hclears, if_false, Bool.false_eq_true]
      rw [advanceClockHand_eq h.list, h.hand]
      rfl

/-- A frame list stays a clock when the hand passes a slot. -/
theorem IsClock.pass (h : m.IsClock k process c) (hmemory : c.slots.length = cfg.framesInMemory)
    {slot : Slot PageId} (hslot : c.slots[c.hand]? = some slot) (clear : Bool) :
    ((m.clearUsed (if clear then [slot.page] else [])).setClockHand k
        (incrementClockHand cfg c.hand)).IsClock k
      { process with clockHand := incrementClockHand cfg c.hand } (c.pass clear) := by
  have hcleared : (m.clearUsed (if clear then [slot.page] else [])).processesFrames =
      m.processesFrames := by
    cases clear <;> rfl
  have hpage? : ∀ id, (m.clearUsed (if clear then [slot.page] else [])).page? id =
      if clear ∧ slot.page = id then
        (m.page? id).map fun page => { page with used := false }
      else m.page? id := by
    intro id
    cases clear
    · simp
    · simpa [clearUsed_cons] using page?_modifyPage slot.page id _
  refine ⟨?_, ?_, ?_, ?_⟩
  · simp [setClockHand, hcleared, h.list]
  · rw [Clock.pass_hand, Clock.place, incrementClockHand_eq, hmemory]
  · apply List.ext_getElem?
    intro i
    rw [List.getElem?_map, List.getElem?_map, Clock.slots_pass]
    cases hi : c.slots[i]? with
    | none =>
        have hmap := congrArg (·[i]?) h.slots
        simp only [List.getElem?_map, hi, Option.map_none, Option.map_eq_none_iff] at hmap
        simp [hmap]
    | some slot' =>
        obtain ⟨entry, page, hentry, hheld, hpage, hused, hmodified⟩ := h.entry hi
        -- Another slot has another page.
        have hsame : slot.page = slot'.page ↔ c.hand = i := by
          constructor
          · intro heq
            obtain ⟨hhand_lt, hhand_slot⟩ := List.getElem?_eq_some_iff.1 hslot
            obtain ⟨hi_lt, hi_slot⟩ := List.getElem?_eq_some_iff.1 hi
            have hhand_map : c.hand < (c.slots.map Slot.page).length := by simpa using hhand_lt
            have hi_map : i < (c.slots.map Slot.page).length := by simpa using hi_lt
            have hpages : (c.slots.map Slot.page)[c.hand] = (c.slots.map Slot.page)[i] := by
              simp [hhand_slot, hi_slot, heq]
            exact (List.Nodup.getElem_inj_iff h.pages).1 hpages
          · intro heq
            subst heq
            rw [hslot, Option.some.injEq] at hi
            rw [hi]
        simp only [hentry, Option.map_some, clockSlot, hheld, Option.bind_eq_bind,
          Option.bind_some, setClockHand_page?, hpage?, hpage, hsame]
        by_cases hclear : clear = true ∧ c.hand = i
        · simp [hclear, Slot.clear, hmodified]
        · simp [hclear, hused, hmodified]
  · have hpages : (c.pass clear).slots.map Slot.page = c.slots.map Slot.page := by
      cases clear
      · rfl
      · exact map_modify_of_eq Slot.clear_page c.slots c.hand
    rw [hpages]
    exact h.pages

/-! ## The turns -/

/-- How many frames the iterations of `two_clock_turns` inspect that are left. -/
def framesInspected (cfg : MemoryConfig) (host : Host) (store : SwapStore Swap) (k : ℕ)
    (checkModified : Bool) (new : PageId) (newPage : PageEntry) (pid : Word) :
    List ℕ → Memory Swap → ℕ
  | [], _ => 0
  | j :: rest, m =>
      match m.clockVisit cfg host store k checkModified new newPage pid j with
      | some (m, none) =>
          framesInspected cfg host store k checkModified new newPage pid rest m + 1
      | _ => 1

/-- Where the loop of the clock ends, `two_clock_turns` replaces. -/
theorem clockTurns_scan (h : m.IsClock k process c)
    (hmemory : c.slots.length = cfg.framesInMemory) {checkModified : Bool} {turns : List ℕ}
    {found : Clock.Found} (hscan : Clock.scan checkModified turns c = some found) (new : PageId)
    (newPage : PageEntry) (pid : Word) :
    ∃ entry old page, (c.slots[found.victim]?).map Slot.page = some old ∧
      process.frames[found.victim]? = some entry ∧ entry.pageData = some old ∧
      m.page? old = some page ∧
      m.clockTurns cfg host store k checkModified new newPage pid turns =
        ((m.clearUsed (c.pagesAt found.cleared)).replace cfg host store k found.victim entry.frame
          old { page with used := false } new newPage pid).map (fun m =>
            (m.setClockHand k ((found.victim + 1) % c.slots.length), entry.frame)) ∧
      m.framesInspected cfg host store k checkModified new newPage pid turns = found.visits := by
  induction turns generalizing m process c found with
  | nil => simp [Clock.scan] at hscan
  | cons j rest ih =>
      rw [Clock.scan] at hscan
      cases hslot : c.slots[c.hand]? with
      | none => simp [hslot] at hscan
      | some slot =>
          simp only [hslot] at hscan
          obtain ⟨entry, page, hentry, hheld, hpage, hused, hvisit⟩ :=
            clockVisit_eq host store h hslot checkModified j new newPage pid
          rw [clockTurns, framesInspected, hvisit]
          by_cases htakes : Clock.takes checkModified j slot = true
          · simp only [htakes, if_true, Option.some.injEq] at hscan ⊢
            subst hscan
            have hunused : { page with used := false } = page := by
              have hslot_unused : slot.used = false := by
                simp only [Clock.takes, Bool.and_eq_true, Bool.not_eq_true'] at htakes
                exact htakes.1
              rw [← hslot_unused, ← hused]
            refine ⟨entry, slot.page, page, by simp [hslot], hentry, hheld, hpage, ?_, ?_⟩
            · have hnone : c.pagesAt [] = [] := rfl
              rw [hunused, incrementClockHand_eq, ← hmemory, hnone, clearUsed_nil]
              cases m.replace cfg host store k c.hand entry.frame slot.page page new newPage pid <;>
                rfl
            · cases m.replace cfg host store k c.hand entry.frame slot.page page new newPage pid <;>
                rfl
          · simp only [htakes, if_false, Bool.false_eq_true] at hscan ⊢
            obtain ⟨found', hfound', rfl⟩ := Option.map_eq_some_iff.1 hscan
            have hnext := h.pass hmemory hslot (Clock.clears checkModified j slot)
            have hlength := c.length_pass (Clock.clears checkModified j slot)
            obtain ⟨entry', old, page', hold, hentry', hheld', hpage', hturns, hvisits⟩ :=
              ih hnext (hlength.trans hmemory) hfound'
            rw [Clock.page_pass] at hold
            rw [setClockHand_page?, clearUsed_page?, Option.map_eq_some_iff] at hpage'
            obtain ⟨page₀, hpage₀, rfl⟩ := hpage'
            have hpassed : c.pagesAt ((if Clock.clears checkModified j slot then [c.hand] else []) ++
                found'.cleared) =
                  (if Clock.clears checkModified j slot then [slot.page] else []) ++
                    c.pagesAt found'.cleared := by
              split <;> simp [Clock.pagesAt, hslot]
            refine ⟨entry', old, page₀, hold, hentry', hheld', hpage₀, ?_, by rw [hvisits]⟩
            rw [hturns, hpassed, clearUsed_append, Clock.pagesAt_pass, clearUsed_setClockHand,
              replace_setClockHand, Option.map_map, hlength]
            congr 1
            · funext m'
              simp
            · congr 1
              by_cases hmem : old ∈ if Clock.clears checkModified j slot then [slot.page] else []
              · rw [if_pos hmem]
              · rw [if_neg hmem]

/-- The result is that of one replacement, of the page in the slot chosen, after the use bits of
the pages passed are cleared; the hand is then one past the slot. -/
def ReplacesChoice (cfg : MemoryConfig) (host : Host) (store : SwapStore Swap) (m : Memory Swap)
    (k : ℕ) (process : ProcessFrame) (c : Clock PageId) (new : PageId) (newPage : PageEntry)
    (pid : Word) (choice : Clock.Choice) (result : Option (Memory Swap × ℤ)) : Prop :=
  ∃ entry old page, (c.slots[c.place choice.distance]?).map Slot.page = some old ∧
    process.frames[c.place choice.distance]? = some entry ∧ entry.pageData = some old ∧
    m.page? old = some page ∧ 0 ≤ entry.frame ∧
    result = ((m.clearUsed (c.pagesAt (c.passed choice.cleared))).replace cfg host store k
      (c.place choice.distance) entry.frame old { page with used := false } new newPage pid).map
        fun m => (m.setClockHand k ((c.place choice.distance + 1) % c.slots.length), entry.frame)

/-- Three frames with a page each, the second of them unused and the third modified too. -/
def threePages : Memory (Word → ℕ → Bytes) where
  memory := List.replicate 24 0
  framesBitmap := [true, true, true]
  level2Tables := [[⟨0, true, true, false, 0⟩, ⟨1, true, false, false, 1⟩],
    [⟨2, true, false, true, 0⟩, ⟨-1, false, false, false, 1⟩]]
  processesFrames := [⟨[⟨0, some ⟨0, 0⟩⟩, ⟨1, some ⟨0, 1⟩⟩, ⟨2, some ⟨1, 0⟩⟩], 2⟩]
  swap _ _ := List.replicate 8 0

def threePagesProcess : ProcessFrame :=
  ⟨[⟨0, some ⟨0, 0⟩⟩, ⟨1, some ⟨0, 1⟩⟩, ⟨2, some ⟨1, 0⟩⟩], 2⟩

def threePagesClock : Clock PageId :=
  ⟨[⟨⟨0, 0⟩, true, false⟩, ⟨⟨0, 1⟩, false, false⟩, ⟨⟨1, 0⟩, false, true⟩], 2⟩

theorem threePages_fullClock :
    threePages.FullClock (.small 3) 0 threePagesProcess threePagesClock where
  list := rfl
  hand := rfl
  slots := by decide
  pages := by decide
  perProcess := rfl
  inMemory := by decide
  frames := by decide
  hand_lt := by decide

/-- CLOCK replaces the first unused page from the hand on, or the page under the hand where all
are used, and clears the use bits of the pages before it. -/
theorem twoClockTurns_clock (h : m.FullClock cfg k process c) (host : Host)
    (store : SwapStore Swap) (new : PageId) (newPage : PageEntry) (pid : Word) :
    m.ReplacesChoice cfg host store k process c new newPage pid c.chooseClock
        (m.twoClockTurns cfg host store k false new newPage pid) ∧
      m.framesInspected cfg host store k false new newPage pid
        (List.replicate cfg.framesPerProcess 0 ++ List.replicate cfg.framesPerProcess 1) ≤
          c.slots.length + 1 := by
  have hscan := c.scan_clock h.hand_lt
  rw [h.perProcess] at hscan
  obtain ⟨entry, old, page, hold, hentry, hheld, hpage, hturns, hvisits⟩ :=
    clockTurns_scan h.toIsClock (h.perProcess.trans h.inMemory) hscan new newPage pid
  refine ⟨⟨entry, old, page, hold, hentry, hheld, hpage, ?_, hturns⟩, ?_⟩
  · exact h.frames entry (List.mem_of_getElem? hentry)
  · rw [hvisits]
    exact Nat.succ_le_succ c.chooseClock_cleared_le

theorem twoClockTurns_clock_three :
    threePages.ReplacesChoice (.small 3) .direct (pageStore (.small 3)) 0 threePagesProcess
        threePagesClock ⟨1, 1⟩ ⟨-1, false, false, false, 1⟩ 1 ⟨0, 0⟩
        (threePages.twoClockTurns (.small 3) .direct (pageStore (.small 3)) 0 false ⟨1, 1⟩
          ⟨-1, false, false, false, 1⟩ 1) ∧
      threePages.framesInspected (.small 3) .direct (pageStore (.small 3)) 0 false ⟨1, 1⟩
        ⟨-1, false, false, false, 1⟩ 1 (List.replicate 3 0 ++ List.replicate 3 1) ≤ 4 := by
  have hchoice : threePagesClock.chooseClock = ⟨0, 0⟩ := by decide
  rw [← hchoice]
  exact twoClockTurns_clock threePages_fullClock .direct (pageStore (.small 3)) ⟨1, 1⟩
    ⟨-1, false, false, false, 1⟩ 1

end SistemasOperativos.Memory
