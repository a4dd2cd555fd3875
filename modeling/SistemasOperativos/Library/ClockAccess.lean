import SistemasOperativos.Library.Clock
import Mathlib.Data.List.Nodup

/-!
# Clocks under accesses

The textbook algorithms on a string of accesses: an access to a page that is in no slot takes the
slot `Clock.choose` gives, and every access sets the use bit of its page.  The slot taken is the
one under the hand exactly if no other slot is of a lower class.
-/

namespace Clock

variable {Page : Type*} (c : Clock Page)

/-! ## Accesses -/

/-- The pages in the slots. -/
def pages : List Page :=
  c.slots.map Slot.page

/-- The slots, with the use bits of the first `k` from the hand on cleared. -/
def cleared (k : ℕ) : List (Slot Page) :=
  (c.passed k).foldl (fun slots i => slots.modify i Slot.clear) c.slots

/-- A page comes in: the page in the slot chosen goes, and is the second part of the result. -/
def load (enhanced : Bool) (page : Page) (write : Bool) : Clock Page × List Page :=
  let choice := c.choose enhanced
  let victim := c.place choice.distance
  (⟨(c.cleared choice.cleared).set victim ⟨page, true, write⟩, (victim + 1) % c.slots.length⟩,
    c.pagesAt [victim])

/-- An access sets the use bit of its page, and the modified bit too if it writes.  The second
part of the result are the pages that go. -/
def access [DecidableEq Page] (enhanced : Bool) (page : Page) (write : Bool) :
    Clock Page × List Page :=
  if page ∈ c.pages then
    (⟨c.slots.map fun slot =>
      if slot.page = page then { slot with used := true, modified := slot.modified || write }
      else slot, c.hand⟩, [])
  else c.load enhanced page write

/-- The pages that go, one after the other, as an access string is carried out. -/
def evictions [DecidableEq Page] (enhanced : Bool) : List (Page × Bool) → Clock Page → List Page
  | [], _ => []
  | (page, write) :: rest, c =>
      (c.access enhanced page write).2 ++ evictions enhanced rest (c.access enhanced page write).1

/-! ## The page under the hand -/

/-- The class of a slot: CLOCK takes used slots last, and CLOCK-M modified ones after unmodified
ones among them. -/
def rank (enhanced : Bool) (slot : Slot Page) : ℕ :=
  2 * slot.used.toNat + if enhanced then slot.modified.toNat else 0

/-- No slot is of a lower class than the one under the hand. -/
def HandLowest (enhanced : Bool) : Prop :=
  ∀ slot ∈ c.slots[c.hand]?, ∀ slot' ∈ c.slots, rank enhanced slot ≤ rank enhanced slot'

instance (enhanced : Bool) : Decidable (c.HandLowest enhanced) :=
  inferInstanceAs (Decidable (∀ slot ∈ c.slots[c.hand]?, _))

theorem meets_zero (hhand : c.hand < c.slots.length) (p : Slot Page → Bool) :
    c.meets p 0 = p c.slots[c.hand] := by
  rw [meets, place_zero c hhand, List.getElem?_eq_getElem hhand, Option.any_some]

theorem first_eq_some_zero (hhand : c.hand < c.slots.length) {p : Slot Page → Bool} {d : ℕ}
    (h : c.first p = some d) : d = 0 ↔ p c.slots[c.hand] = true := by
  obtain ⟨-, hmeets, hbefore⟩ := c.first_eq_some.1 h
  rw [← meets_zero c hhand p]
  constructor
  · intro hd
    rwa [← hd]
  · intro hzero
    by_contra hd
    have := hbefore 0 (by omega)
    rw [hzero] at this
    cases this

theorem exists_mem_of_first {p : Slot Page → Bool} {d : ℕ} (h : c.first p = some d) :
    ∃ slot ∈ c.slots, p slot = true := by
  have hmeets := (c.first_eq_some.1 h).2.1
  obtain ⟨slot, hslot, hp⟩ := (Option.any_eq_true _ _).1 hmeets
  exact ⟨slot, List.mem_of_getElem? hslot, hp⟩

theorem forall_mem_of_first (hhand : c.hand < c.slots.length) {p : Slot Page → Bool}
    (h : c.first p = none) : ∀ slot ∈ c.slots, p slot = false := by
  intro slot hmem
  obtain ⟨i, hi⟩ := List.getElem?_of_mem hmem
  obtain ⟨d, hd, hplace⟩ := c.exists_place hhand (List.getElem?_eq_some_iff.1 hi).1
  have hmeets := c.first_eq_none.1 h d hd
  rw [meets, hplace, hi] at hmeets
  exact hmeets

theorem handLowest_iff (hhand : c.hand < c.slots.length) (enhanced : Bool) :
    c.HandLowest enhanced ↔ ∀ slot ∈ c.slots, rank enhanced c.slots[c.hand] ≤ rank enhanced slot := by
  simp [HandLowest, List.getElem?_eq_getElem hhand]

/-- CLOCK takes the slot under the hand exactly if no other is of a lower class. -/
theorem chooseClock_distance (hhand : c.hand < c.slots.length) :
    c.chooseClock.distance = 0 ↔ c.HandLowest false := by
  rw [handLowest_iff c hhand, chooseClock]
  cases hunused : c.first fun slot => !slot.used with
  | some d =>
      rw [show (⟨d, d⟩ : Choice).distance = d from rfl, first_eq_some_zero c hhand hunused]
      obtain ⟨slot, hmem, hslot⟩ := c.exists_mem_of_first hunused
      constructor
      · intro hzero slot' _
        simp_all [rank]
      · intro hlowest
        have := hlowest slot hmem
        simp_all [rank]
  | none =>
      have hused := c.forall_mem_of_first hhand hunused
      have hfirst := hused _ (List.getElem_mem hhand)
      constructor
      · intro _ slot hmem
        have := hused slot hmem
        simp_all [rank]
      · intro _
        rfl

/-- So does CLOCK-M, with its classes. -/
theorem chooseClockM_distance (hhand : c.hand < c.slots.length) :
    c.chooseClockM.distance = 0 ↔ c.HandLowest true := by
  have hfirst := List.getElem_mem hhand
  rw [handLowest_iff c hhand, chooseClockM]
  cases hclean : c.first fun slot => !slot.used && !slot.modified with
  | some d =>
      rw [show (⟨d, 0⟩ : Choice).distance = d from rfl, first_eq_some_zero c hhand hclean]
      obtain ⟨slot, hmem, hslot⟩ := c.exists_mem_of_first hclean
      constructor
      · intro hzero slot' _
        simp_all [rank]
      · intro hlowest
        have := hlowest slot hmem
        simp_all [rank]
  | none =>
      have hunclean := c.forall_mem_of_first hhand hclean
      have hrank : ∀ slot ∈ c.slots, 1 ≤ rank true slot := by
        intro slot hmem
        have := hunclean slot hmem
        cases hused : slot.used <;> simp_all [rank]
        omega
      cases hunused : c.first fun slot => !slot.used with
      | some d =>
          show d = 0 ↔ _
          rw [first_eq_some_zero c hhand hunused]
          obtain ⟨slot, hmem, hslot⟩ := c.exists_mem_of_first hunused
          constructor
          · intro hzero slot' hmem'
            have := Bool.toNat_le c.slots[c.hand].modified
            refine Nat.le_trans ?_ (hrank slot' hmem')
            simp_all [rank]
          · intro hlowest
            have := hlowest slot hmem
            have := Bool.toNat_le slot.modified
            cases hused : c.slots[c.hand].used
            · rfl
            · simp_all [rank]
              omega
      | none =>
          have hused := c.forall_mem_of_first hhand hunused
          cases hunmodified : c.first fun slot => !slot.modified with
          | some d =>
              show d = 0 ↔ _
              rw [first_eq_some_zero c hhand hunmodified]
              obtain ⟨slot, hmem, hslot⟩ := c.exists_mem_of_first hunmodified
              constructor
              · intro hzero slot' hmem'
                have := hused slot' hmem'
                simp_all [rank]
              · intro hlowest
                have := hlowest slot hmem
                have := hused slot hmem
                have := hused _ hfirst
                cases hmodified : c.slots[c.hand].modified
                · rfl
                · simp_all [rank]
          | none =>
              have hmodified := c.forall_mem_of_first hhand hunmodified
              constructor
              · intro _ slot hmem
                have := hused slot hmem
                have := hmodified slot hmem
                have := Bool.toNat_le c.slots[c.hand].modified
                simp_all [rank]
              · intro _
                rfl

theorem choose_distance (hhand : c.hand < c.slots.length) (enhanced : Bool) :
    (c.choose enhanced).distance = 0 ↔ c.HandLowest enhanced := by
  cases enhanced
  · exact c.chooseClock_distance hhand
  · exact c.chooseClockM_distance hhand

/-! ## What an access does to the pages -/

theorem map_modify_clear (slots : List (Slot Page)) (places : List ℕ) :
    (places.foldl (fun slots i => slots.modify i Slot.clear) slots).map Slot.page =
      slots.map Slot.page := by
  induction places generalizing slots with
  | nil => rfl
  | cons i rest ih =>
      rw [List.foldl_cons, ih]
      apply List.ext_getElem?
      intro j
      rw [List.getElem?_map, List.getElem?_map, List.getElem?_modify]
      split <;> cases slots[j]? <;> rfl

/-- What is left in a list without duplicates of which one item is replaced. -/
theorem mem_set_of_nodup {l : List Page} (hl : l.Nodup) {i : ℕ} (hi : i < l.length) (a b : Page) :
    b ∈ l.set i a ↔ b = a ∨ b ∈ l ∧ b ≠ l[i] := by
  constructor
  · intro hmem
    obtain ⟨j, hj⟩ := List.getElem?_of_mem hmem
    rw [List.getElem?_set] at hj
    by_cases hij : i = j
    · subst hij
      rw [if_pos rfl, if_pos hi, Option.some.injEq] at hj
      exact .inl hj.symm
    · rw [if_neg hij] at hj
      refine .inr ⟨List.mem_of_getElem? hj, fun heq => hij ?_⟩
      obtain ⟨hlt, hb⟩ := List.getElem?_eq_some_iff.1 hj
      exact ((List.Nodup.getElem_inj_iff hl).1 (hb.trans heq)).symm
  · rintro (rfl | ⟨hmem, hne⟩)
    · exact List.mem_set hi _
    · obtain ⟨j, hj⟩ := List.getElem?_of_mem hmem
      have hij : i ≠ j := by
        rintro rfl
        rw [List.getElem?_eq_getElem hi, Option.some.injEq] at hj
        exact hne hj.symm
      apply List.mem_of_getElem? (i := j)
      rw [List.getElem?_set_ne hij, hj]

@[simp] theorem length_pages : c.pages.length = c.slots.length :=
  List.length_map ..

section

variable [DecidableEq Page] (enhanced : Bool) {page : Page} (write : Bool)

theorem access_of_mem (hmem : page ∈ c.pages) :
    (c.access enhanced page write).1.pages = c.pages ∧
      (c.access enhanced page write).1.hand = c.hand ∧ (c.access enhanced page write).2 = [] := by
  rw [access, if_pos hmem]
  refine ⟨?_, rfl, rfl⟩
  rw [pages, List.map_map]
  apply List.map_congr_left
  intro slot _
  by_cases hslot : slot.page = page <;> simp [hslot]

/-- A page that comes in takes the slot chosen. -/
theorem access_of_not_mem (hmem : page ∉ c.pages) :
    (c.access enhanced page write).1.pages =
        c.pages.set (c.place (c.choose enhanced).distance) page ∧
      (c.access enhanced page write).1.hand =
        (c.place (c.choose enhanced).distance + 1) % c.slots.length ∧
      (c.access enhanced page write).2 = c.pagesAt [c.place (c.choose enhanced).distance] := by
  rw [access, if_neg hmem]
  refine ⟨?_, rfl, rfl⟩
  rw [load, pages, List.map_set, cleared, map_modify_clear]
  rfl

end

theorem pagesAt_singleton {i : ℕ} (hi : i < c.slots.length) :
    c.pagesAt [i] = [c.slots[i].page] := by
  simp [pagesAt, List.getElem?_eq_getElem hi]

/-- Where a slot is of a lower class than the one under the hand, another page goes. -/
theorem pagesAt_ne (hhand : c.hand < c.slots.length) (hpages : c.pages.Nodup) {enhanced : Bool}
    (hlowest : ¬ c.HandLowest enhanced) :
    c.pagesAt [c.place (c.choose enhanced).distance] ≠ [c.slots[c.hand].page] := by
  intro heq
  have hlt := c.place_lt hhand (c.choose enhanced).distance
  rw [pagesAt_singleton c hlt, List.singleton_inj] at heq
  have hplace : c.place (c.choose enhanced).distance = c.hand := by
    have hmap_hand : c.hand < c.pages.length := by simpa using hhand
    have hmap_place : c.place (c.choose enhanced).distance < c.pages.length := by simpa using hlt
    have hpage : c.pages[c.place (c.choose enhanced).distance] = c.pages[c.hand] := by
      simp only [pages, List.getElem_map]
      exact heq
    exact (List.Nodup.getElem_inj_iff hpages).1 hpage
  have hzero : c.place (c.choose enhanced).distance = c.place 0 := by
    rw [hplace, place_zero c hhand]
  have hdistance := c.place_injective (c.choose_distance_lt hhand enhanced)
    (Nat.lt_of_le_of_lt (Nat.zero_le _) hhand) hzero
  exact hlowest ((c.choose_distance hhand enhanced).1 hdistance)

end Clock
