import Mathlib.Data.List.Basic
import Mathlib.Data.Nat.ModEq
import Mathlib.Tactic.Common

/-!
# Clocks

Page replacement by a hand that goes round a list of slots.  Every slot holds a page with a use
bit and a modified bit.  `Clock.choose` says which slot the textbook algorithms take: CLOCK the
first unused one from the hand on, and CLOCK-M the first one of the lowest class.

`Clock.scan` is the loop that carries them out, slot by slot and turn by turn.  It tests bits it
has cleared itself on an earlier turn; `scan_clock` and `scan_clockM` say that it ends on the slot
chosen, and which bits it has cleared by then.
-/

/-- A slot of a clock. -/
structure Slot (Page : Type*) where
  page : Page
  used : Bool
  modified : Bool
deriving DecidableEq, Repr

/-- Slots in a circle, and the place of the hand. -/
structure Clock (Page : Type*) where
  slots : List (Slot Page)
  hand : ℕ
deriving DecidableEq, Repr

variable {Page : Type*}

/-- The slot with its use bit cleared. -/
def Slot.clear (slot : Slot Page) : Slot Page :=
  { slot with used := false }

@[simp] theorem Slot.clear_page (slot : Slot Page) : slot.clear.page = slot.page := rfl
@[simp] theorem Slot.clear_used (slot : Slot Page) : slot.clear.used = false := rfl
@[simp] theorem Slot.clear_modified (slot : Slot Page) :
    slot.clear.modified = slot.modified := rfl

namespace Clock

variable (c : Clock Page)

/-! ## Circular order -/

/-- The slot `d` places after the hand. -/
def place (d : ℕ) : ℕ :=
  (c.hand + d) % c.slots.length

/-- The slot `d` places after the hand meets `p`. -/
def meets (p : Slot Page → Bool) (d : ℕ) : Bool :=
  (c.slots[c.place d]?).any p

/-- How far from the hand the first slot is that meets `p`. -/
def first (p : Slot Page → Bool) : Option ℕ :=
  (List.range c.slots.length).find? (c.meets p)

/-- The first `k` slots from the hand on. -/
def passed (k : ℕ) : List ℕ :=
  (List.range k).map c.place

/-- The pages in some of the slots. -/
def pagesAt (places : List ℕ) : List Page :=
  places.filterMap fun i => (c.slots[i]?).map Slot.page

theorem place_lt (hhand : c.hand < c.slots.length) (d : ℕ) : c.place d < c.slots.length :=
  Nat.mod_lt _ (by omega)

theorem place_zero (hhand : c.hand < c.slots.length) : c.place 0 = c.hand :=
  Nat.mod_eq_of_lt hhand

theorem place_length (hhand : c.hand < c.slots.length) : c.place c.slots.length = c.hand := by
  rw [place, Nat.add_mod_right, Nat.mod_eq_of_lt hhand]

/-- Within one turn no slot comes twice. -/
theorem place_injective {d d' : ℕ} (hd : d < c.slots.length) (hd' : d' < c.slots.length)
    (h : c.place d = c.place d') : d = d' := by
  have hmod : d % c.slots.length = d' % c.slots.length := Nat.ModEq.add_left_cancel' _ h
  rwa [Nat.mod_eq_of_lt hd, Nat.mod_eq_of_lt hd'] at hmod

/-- Every slot comes within one turn. -/
theorem exists_place (hhand : c.hand < c.slots.length) {i : ℕ} (hi : i < c.slots.length) :
    ∃ d < c.slots.length, c.place d = i := by
  by_cases hle : c.hand ≤ i
  · refine ⟨i - c.hand, by omega, ?_⟩
    rw [place, Nat.add_sub_cancel' hle, Nat.mod_eq_of_lt hi]
  · refine ⟨i + c.slots.length - c.hand, by omega, ?_⟩
    have hsum : c.hand + (i + c.slots.length - c.hand) = i + c.slots.length := by omega
    rw [place, hsum, Nat.add_mod_right, Nat.mod_eq_of_lt hi]

theorem first_eq_some {p : Slot Page → Bool} {d : ℕ} :
    c.first p = some d ↔
      d < c.slots.length ∧ c.meets p d = true ∧ ∀ d' < d, c.meets p d' = false := by
  simp only [first, List.find?_range_eq_some, List.mem_range, Bool.not_eq_true']
  tauto

theorem first_eq_none {p : Slot Page → Bool} :
    c.first p = none ↔ ∀ d < c.slots.length, c.meets p d = false := by
  simp [first]

/-! ## The choice -/

/-- The slot to take, by its distance from the hand, and how many slots from the hand on lose
their use bit. -/
structure Choice where
  distance : ℕ
  cleared : ℕ
deriving DecidableEq, Repr

/-- CLOCK takes the first unused slot, and the slot under the hand where all are used. -/
def chooseClock : Choice :=
  match c.first fun slot => !slot.used with
  | some d => ⟨d, d⟩
  | none => ⟨0, c.slots.length⟩

/-- CLOCK-M takes the first slot neither used nor modified, else the first unused one, else,
with every use bit cleared, the first unmodified one, else the slot under the hand. -/
def chooseClockM : Choice :=
  match c.first fun slot => !slot.used && !slot.modified with
  | some d => ⟨d, 0⟩
  | none =>
      match c.first fun slot => !slot.used with
      | some d => ⟨d, d⟩
      | none =>
          match c.first fun slot => !slot.modified with
          | some d => ⟨d, c.slots.length⟩
          | none => ⟨0, c.slots.length⟩

theorem chooseClock_cleared_le : c.chooseClock.cleared ≤ c.slots.length := by
  rw [chooseClock]
  split
  · rename_i d hfirst
    exact Nat.le_of_lt (c.first_eq_some.1 hfirst).1
  · exact Nat.le_refl _

/-- The choice of CLOCK, or of CLOCK-M where `enhanced`. -/
def choose (enhanced : Bool) : Choice :=
  if enhanced then c.chooseClockM else c.chooseClock

theorem choose_distance_lt (hhand : c.hand < c.slots.length) (enhanced : Bool) :
    (c.choose enhanced).distance < c.slots.length := by
  have hfirst : ∀ {p d}, c.first p = some d → d < c.slots.length := fun h =>
    (c.first_eq_some.1 h).1
  cases enhanced
  · show c.chooseClock.distance < _
    rw [chooseClock]
    split
    · exact hfirst ‹_›
    · exact Nat.lt_of_le_of_lt (Nat.zero_le _) hhand
  · show c.chooseClockM.distance < _
    rw [chooseClockM]
    repeat' split
    all_goals first
      | exact hfirst ‹_›
      | exact Nat.lt_of_le_of_lt (Nat.zero_le _) hhand

/-! ## The loop -/

/-- On this turn the slot is taken: it is unused, and unmodified or the turn is the second. -/
def takes (enhanced : Bool) (turn : ℕ) (slot : Slot Page) : Bool :=
  !slot.used && (!enhanced || !slot.modified || turn == 1)

/-- On this turn the use bit of the slot is cleared. -/
def clears (enhanced : Bool) (turn : ℕ) (slot : Slot Page) : Bool :=
  slot.used && (!enhanced || turn == 1)

/-- The hand passes a slot, with its use bit cleared or not. -/
def pass (clear : Bool) : Clock Page where
  slots := if clear then c.slots.modify c.hand Slot.clear else c.slots
  hand := c.place 1

/-- What a loop round the clock has found: the slot it takes, the slots whose use bit it has
cleared on the way, and how many slots it has looked at. -/
structure Found where
  victim : ℕ
  cleared : List ℕ
  visits : ℕ
deriving DecidableEq, Repr

/-- The loop over the slots from the hand on; each item of the list is one slot, on that turn. -/
def scan (enhanced : Bool) : List ℕ → Clock Page → Option Found
  | [], _ => none
  | turn :: rest, c =>
      match c.slots[c.hand]? with
      | none => none
      | some slot =>
          if takes enhanced turn slot then some ⟨c.hand, [], 1⟩
          else
            (scan enhanced rest (c.pass (clears enhanced turn slot))).map fun found =>
              { found with
                cleared := (if clears enhanced turn slot then [c.hand] else []) ++ found.cleared
                visits := found.visits + 1 }

@[simp] theorem pass_hand (clear : Bool) : (c.pass clear).hand = c.place 1 := rfl

@[simp] theorem length_pass (clear : Bool) : (c.pass clear).slots.length = c.slots.length := by
  cases clear <;> simp [pass]

theorem place_pass (clear : Bool) (d : ℕ) : (c.pass clear).place d = c.place (d + 1) := by
  rw [place, place, pass_hand, length_pass, place, Nat.mod_add_mod, Nat.add_assoc,
    Nat.add_comm 1 d]

theorem slots_pass (clear : Bool) (i : ℕ) :
    (c.pass clear).slots[i]? =
      if clear ∧ c.hand = i then (c.slots[i]?).map Slot.clear else c.slots[i]? := by
  cases clear
  · simp [pass]
  · by_cases hi : c.hand = i <;> simp [pass, hi]

@[simp] theorem page_pass (clear : Bool) (i : ℕ) :
    ((c.pass clear).slots[i]?).map Slot.page = (c.slots[i]?).map Slot.page := by
  rw [slots_pass]
  split
  · cases c.slots[i]? <;> rfl
  · rfl

@[simp] theorem pagesAt_pass (clear : Bool) (places : List ℕ) :
    (c.pass clear).pagesAt places = c.pagesAt places := by
  simp [pagesAt]

/-- The hand passes `k` slots. -/
def sweep (clear : Bool) : ℕ → Clock Page → Clock Page
  | 0, c => c
  | k + 1, c => sweep clear k (c.pass clear)

@[simp] theorem length_sweep (clear : Bool) (k : ℕ) :
    (c.sweep clear k).slots.length = c.slots.length := by
  induction k generalizing c with
  | zero => rfl
  | succ k ih => rw [sweep, ih, length_pass]

theorem sweep_hand (clear : Bool) (k : ℕ) (hhand : c.hand < c.slots.length) :
    (c.sweep clear k).hand = c.place k := by
  induction k generalizing c with
  | zero => rw [sweep, place_zero c hhand]
  | succ k ih =>
      have hnext : (c.pass clear).hand < (c.pass clear).slots.length := by
        rw [pass_hand, length_pass]
        exact c.place_lt hhand 1
      rw [sweep, ih _ hnext, place_pass]

/-- A sweep of at most one turn clears the bits of the slots it passes, and of no others. -/
theorem slots_sweep (clear : Bool) {k d : ℕ} (hhand : c.hand < c.slots.length)
    (hk : k ≤ c.slots.length) (hd : d < c.slots.length) :
    (c.sweep clear k).slots[c.place d]? =
      if clear ∧ d < k then (c.slots[c.place d]?).map Slot.clear else c.slots[c.place d]? := by
  induction k generalizing c d with
  | zero => simp [sweep]
  | succ k ih =>
      have hnext : (c.pass clear).hand < (c.pass clear).slots.length := by
        rw [pass_hand, length_pass]
        exact c.place_lt hhand 1
      have hlength : 0 < c.slots.length := by omega
      rw [sweep]
      cases d with
      | zero =>
          -- The slot under the hand is the first one passed and comes again after a full turn.
          have hlast : c.place 0 = (c.pass clear).place (c.slots.length - 1) := by
            rw [place_pass, Nat.sub_add_cancel hlength, place_length c hhand, place_zero c hhand]
          rw [hlast, ih (c.pass clear) hnext (by simpa using Nat.le_of_succ_le hk)
            (by rw [length_pass]; omega), ← hlast, slots_pass, place_zero c hhand]
          have hk' : ¬ c.slots.length - 1 < k := by omega
          simp [hk']
      | succ d =>
          have hne : c.hand ≠ c.place (d + 1) := by
            intro heq
            rw [← place_zero c hhand] at heq
            have := c.place_injective hlength hd heq
            omega
          rw [← place_pass c clear, ih (c.pass clear) hnext
            (by simpa using Nat.le_of_succ_le hk) (by rw [length_pass]; omega), place_pass,
            slots_pass]
          simp [hne]

/-- The clock after a full turn. -/
def turned (clear : Bool) : Clock Page where
  slots := if clear then c.slots.map Slot.clear else c.slots
  hand := c.hand

theorem sweep_length (clear : Bool) (hhand : c.hand < c.slots.length) :
    c.sweep clear c.slots.length = c.turned clear := by
  have hslots : (c.sweep clear c.slots.length).slots = (c.turned clear).slots := by
    apply List.ext_getElem?
    intro i
    by_cases hi : i < c.slots.length
    · obtain ⟨d, hd, rfl⟩ := c.exists_place hhand hi
      rw [slots_sweep c clear hhand (Nat.le_refl _) hd]
      cases clear <;> simp [turned, hd]
    · have hlength : (c.turned clear).slots.length = c.slots.length := by
        cases clear <;> simp [turned]
      rw [List.getElem?_eq_none (by simpa using hi), List.getElem?_eq_none (by omega)]
  have hhands : (c.sweep clear c.slots.length).hand = c.hand := by
    rw [sweep_hand c clear _ hhand, place_length c hhand]
  calc c.sweep clear c.slots.length
      = ⟨(c.sweep clear c.slots.length).slots, (c.sweep clear c.slots.length).hand⟩ := rfl
    _ = c.turned clear := by rw [hslots, hhands]; rfl

/-! ## Where the loop ends -/

/-- Slots that are neither taken nor treated differently are passed together. -/
theorem scan_sweep {enhanced clear : Bool} {turn k : ℕ} {rest : List ℕ}
    (hhand : c.hand < c.slots.length) (hk : k ≤ c.slots.length)
    (htakes : ∀ d < k, c.meets (takes enhanced turn) d = false)
    (hclears : ∀ d < k, c.meets (clears enhanced turn) d = clear) :
    scan enhanced (List.replicate k turn ++ rest) c =
      (scan enhanced rest (c.sweep clear k)).map fun found =>
        { found with
          cleared := (if clear then c.passed k else []) ++ found.cleared
          visits := found.visits + k } := by
  induction k generalizing c with
  | zero => simp [sweep, passed]
  | succ k ih =>
      have hnext : (c.pass clear).hand < (c.pass clear).slots.length := by
        rw [pass_hand, length_pass]
        exact c.place_lt hhand 1
      -- The slots after the first one are those of the clock once the hand has passed it.
      have hmeets : ∀ p, ∀ d < k, (c.pass clear).meets p d = c.meets p (d + 1) := by
        intro p d hd
        have hne : c.hand ≠ c.place (d + 1) := by
          intro heq
          rw [← place_zero c hhand] at heq
          have := c.place_injective (by omega) (by omega) heq
          omega
        rw [meets, meets, place_pass, slots_pass]
        simp [hne]
      have hslot := List.getElem?_eq_getElem hhand
      have htake := htakes 0 (by omega)
      have hclear := hclears 0 (by omega)
      rw [meets, place_zero c hhand, hslot, Option.any_some] at htake hclear
      have hpassed : c.passed (k + 1) = c.hand :: (c.pass clear).passed k := by
        rw [passed, passed, List.range_succ_eq_map, List.map_cons, List.map_map,
          place_zero c hhand]
        congr 2
        funext d
        exact (place_pass c clear d).symm
      rw [List.replicate_succ, List.cons_append, scan]
      simp only [hslot, htake, hclear, Bool.false_eq_true, if_false]
      rw [ih (c.pass clear) hnext (by rw [length_pass]; omega)
          (fun d hd => by rw [hmeets _ d hd]; exact htakes (d + 1) (by omega))
          (fun d hd => by rw [hmeets _ d hd]; exact hclears (d + 1) (by omega)),
        Option.map_map, hpassed, sweep]
      congr 1
      funext found
      cases clear <;> simp [Nat.add_assoc]

/-- The loop ends on the first slot it takes. -/
theorem scan_take {enhanced : Bool} {turn : ℕ} {rest : List ℕ} (hhand : c.hand < c.slots.length)
    (htakes : c.meets (takes enhanced turn) 0 = true) :
    scan enhanced (turn :: rest) c = some ⟨c.hand, [], 1⟩ := by
  have hslot := List.getElem?_eq_getElem hhand
  rw [meets, place_zero c hhand, hslot, Option.any_some] at htakes
  rw [scan]
  simp [hslot, htakes]

/-- What is taken before the turn is over. -/
theorem scan_of_first {enhanced clear : Bool} {turn d : ℕ} {rest : List ℕ}
    (hhand : c.hand < c.slots.length) (hfirst : c.first (takes enhanced turn) = some d)
    (hclears : ∀ d' < d, c.meets (clears enhanced turn) d' = clear) :
    scan enhanced (List.replicate c.slots.length turn ++ rest) c =
      some ⟨c.place d, if clear then c.passed d else [], d + 1⟩ := by
  obtain ⟨hd, htaken, hbefore⟩ := c.first_eq_some.1 hfirst
  have hlist : List.replicate c.slots.length turn ++ rest =
      List.replicate d turn ++
        (turn :: (List.replicate (c.slots.length - d - 1) turn ++ rest)) := by
    rw [← List.cons_append, ← List.replicate_succ, ← List.append_assoc, List.replicate_append_replicate]
    congr 2
    omega
  have hswept : (c.sweep clear d).hand < (c.sweep clear d).slots.length := by
    rw [sweep_hand c clear d hhand, length_sweep]
    exact c.place_lt hhand d
  have htake : (c.sweep clear d).meets (takes enhanced turn) 0 = true := by
    rw [meets, place_zero _ hswept, sweep_hand c clear d hhand,
      slots_sweep c clear hhand (Nat.le_of_lt hd) hd]
    simpa [meets] using htaken
  rw [hlist, scan_sweep c hhand (Nat.le_of_lt hd) hbefore hclears, scan_take _ hswept htake,
    Option.map_some, sweep_hand c clear d hhand, List.append_nil, Nat.add_comm 1 d]

/-- A turn on which nothing is taken. -/
theorem scan_of_first_none {enhanced clear : Bool} {turn : ℕ} {rest : List ℕ}
    (hhand : c.hand < c.slots.length) (hfirst : c.first (takes enhanced turn) = none)
    (hclears : ∀ d < c.slots.length, c.meets (clears enhanced turn) d = clear) :
    scan enhanced (List.replicate c.slots.length turn ++ rest) c =
      (scan enhanced rest (c.turned clear)).map fun found =>
        { found with
          cleared := (if clear then c.passed c.slots.length else []) ++ found.cleared
          visits := found.visits + c.slots.length } := by
  rw [scan_sweep c hhand (Nat.le_refl _) (c.first_eq_none.1 hfirst) hclears, sweep_length c clear hhand]

/-- A turn the hand begins on a slot that is taken. -/
theorem scan_of_hand {enhanced : Bool} {turn : ℕ} {rest : List ℕ}
    (hhand : c.hand < c.slots.length) (htakes : c.meets (takes enhanced turn) 0 = true) :
    scan enhanced (List.replicate c.slots.length turn ++ rest) c = some ⟨c.hand, [], 1⟩ := by
  obtain ⟨n, hn⟩ : ∃ n, c.slots.length = n + 1 := ⟨c.slots.length - 1, by omega⟩
  rw [hn, List.replicate_succ, List.cons_append]
  exact scan_take c hhand htakes

/-! ## The algorithms -/

@[simp] theorem takes_clock (turn : ℕ) :
    (takes false turn : Slot Page → Bool) = fun slot => !slot.used := by
  funext slot
  simp [takes]

@[simp] theorem clears_clock (turn : ℕ) :
    (clears false turn : Slot Page → Bool) = fun slot => slot.used := by
  funext slot
  simp [clears]

@[simp] theorem takes_clockM_zero :
    (takes true 0 : Slot Page → Bool) = fun slot => !slot.used && !slot.modified := by
  funext slot
  simp [takes]

@[simp] theorem clears_clockM_zero : (clears true 0 : Slot Page → Bool) = fun _ => false := by
  funext slot
  simp [clears]

@[simp] theorem takes_clockM_one : (takes true 1 : Slot Page → Bool) = fun slot => !slot.used := by
  funext slot
  simp [takes]

@[simp] theorem clears_clockM_one : (clears true 1 : Slot Page → Bool) = fun slot => slot.used := by
  funext slot
  simp [clears]

theorem meets_turned (p : Slot Page → Bool) (d : ℕ) :
    (c.turned true).meets p d = c.meets (fun slot => p slot.clear) d := by
  simp only [meets, place, turned, if_true, List.length_map, List.getElem?_map]
  cases c.slots[(c.hand + d) % c.slots.length]? <;> rfl

/-- A test that some slot passes or fails. -/
theorem meets_not (hhand : c.hand < c.slots.length) (p : Slot Page → Bool) (d : ℕ) :
    c.meets (fun slot => !p slot) d = !c.meets p d := by
  rw [meets, meets, List.getElem?_eq_getElem (c.place_lt hhand d)]
  rfl

theorem meets_const (hhand : c.hand < c.slots.length) (b : Bool) (d : ℕ) :
    c.meets (fun _ => b) d = b := by
  rw [meets, List.getElem?_eq_getElem (c.place_lt hhand d)]
  rfl

/-- Two turns of CLOCK end on its choice, after one slot more than they have cleared. -/
theorem scan_clock (hhand : c.hand < c.slots.length) :
    scan false (List.replicate c.slots.length 0 ++ List.replicate c.slots.length 1) c =
      some ⟨c.place c.chooseClock.distance, c.passed c.chooseClock.cleared,
        c.chooseClock.cleared + 1⟩ := by
  cases hfirst : c.first fun slot => !slot.used with
  | some d =>
      have hused : ∀ d' < d, c.meets (clears false 0) d' = true := by
        intro d' hd'
        have := (c.first_eq_some.1 hfirst).2.2 d' hd'
        rw [meets_not c hhand] at this
        simpa using this
      rw [scan_of_first c hhand (by simpa using hfirst) hused]
      simp [chooseClock, hfirst]
  | none =>
      have hused : ∀ d < c.slots.length, c.meets (clears false 0) d = true := by
        intro d hd
        have := c.first_eq_none.1 hfirst d hd
        rw [meets_not c hhand] at this
        simpa using this
      have hlength : (c.turned true).slots.length = c.slots.length := by simp [turned]
      have htake : (c.turned true).meets (takes false 1) 0 = true := by
        rw [meets_turned]
        simpa using meets_const c hhand true 0
      rw [scan_of_first_none c hhand (by simpa using hfirst) hused, ← hlength,
        ← List.append_nil (List.replicate _ 1), scan_of_hand _ (by rwa [hlength]) htake, hlength]
      simp [chooseClock, hfirst, turned, place_zero c hhand, Nat.add_comm 1]

end Clock
