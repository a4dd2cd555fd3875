import SistemasOperativos.Proofs.TlbVictims

/-!
# The TLB with LRU

With LRU a hit should take the entry to the end of the victims.  `lru_tlb` removes it from the
wrong object: it hands `list_remove_by_condition` the `t_pQueue` where the function expects its
list.  So nothing leaves the victims, and what comes back is put behind them all the same.
-/

namespace SistemasOperativos

variable {n : ℕ} {settings : TlbSettings n}

namespace Tlb

/-- The entries used so far, by an addition or a hit, one after the other, after a call. -/
def usesAfter (tlb : Tlb n) (uses : List (Fin n)) : TlbAction → List (Fin n)
  | .getTlbFrame page => uses ++ tlb.hits page
  | action => tlb.fillsAfter uses action

/-- The entries in use. -/
def used (tlb : Tlb n) : List (Fin n) :=
  (List.finRange n).filter fun i => tlb.InUse i

/-- What LRU asks of a call that leaves `tlb'`: a replacement evicts the entry whose last use is
the oldest, and after a hit the victims are the entries in use, the one hit last. -/
def LeastRecent (tlb : Tlb n) (uses : List (Fin n)) (tlb' : Tlb n) : TlbAction → Prop
  | .getTlbFrame page => ∀ i, (tlb.hits page).getLast? = some i →
      tlb'.victims.Perm (tlb'.used.map some) ∧ tlb'.victims.getLast? = some (some i)
  | .addTlbEntry _ _ => (∀ i, tlb.InUse i) → tlb.target = (tlb.inFillOrder uses).head?
  | _ => True

/-- Every call of a sequence returns and does what LRU asks of it. -/
def LeastRecentRun (settings : TlbSettings n) : List TlbAction → Tlb n → List (Fin n) → Prop
  | [], _, _ => True
  | action :: rest, tlb, uses =>
      match tlb.call settings action with
      | none => False
      | some (tlb', _) => tlb.LeastRecent uses tlb' action ∧
          LeastRecentRun settings rest tlb' (tlb.usesAfter uses action)

/-- No lookup of a sequence hits an entry. -/
def NeverHits (settings : TlbSettings n) : List TlbAction → Tlb n → Prop
  | [], _ => True
  | action :: rest, tlb =>
      (∀ page, action = .getTlbFrame page → tlb.hits page = []) ∧
        match tlb.call settings action with
        | none => True
        | some (tlb', _) => NeverHits settings rest tlb'

/-- The call is an addition or a lookup. -/
def AddsOrLooksUp : TlbAction → Prop
  | .getTlbFrame _ | .addTlbEntry _ _ => True
  | _ => False

variable {tlb : Tlb n} {uses : List (Fin n)}

/-- As many entries are in use as there are victims. -/
theorem VictimsInOrder.length_used (h : tlb.VictimsInOrder uses) :
    tlb.victims.length = tlb.used.length := by
  have hperm : (tlb.inFillOrder uses).Perm tlb.used := by
    have hnodup : tlb.used.Nodup := (List.nodup_finRange n).filter _
    rw [List.perm_ext_iff_of_nodup inFillOrder_nodup hnodup]
    intro i
    rw [mem_inFillOrder]
    simp only [used, List.mem_filter, List.mem_finRange, decide_eq_true_eq, true_and]
    exact ⟨fun hi => hi.2, fun hi => ⟨h.filled i hi, hi⟩⟩
  rw [h.victims, List.length_map, hperm.length_eq]

/-- No null pointer is in the way of an addition. -/
theorem VictimsInOrder.add_isSome (h : tlb.VictimsInOrder uses) (page frame : Word) :
    ∃ after, tlb.addTlbEntry page frame = some after := by
  rw [addTlbEntry]
  split
  · exact ⟨_, rfl⟩
  · have hvictims := h.victims
    cases horder : tlb.inFillOrder uses with
    | nil =>
        rw [horder] at hvictims
        rw [hvictims]
        exact ⟨_, rfl⟩
    | cons i rest =>
        rw [horder] at hvictims
        rw [hvictims]
        exact ⟨_, rfl⟩

theorem inUse_getTlbFrame (settings : TlbSettings n) (tlb : Tlb n) (page : Word) (i : Fin n) :
    (tlb.getTlbFrame settings page).tlb.InUse i ↔ tlb.InUse i := by
  rw [InUse, InUse, (getTlbFrame_spec settings tlb page).1]

/-- A hit leaves one victim more than there are entries in use. -/
theorem VictimsInOrder.not_perm_of_hit (hlru : settings.replaceAlgorithm = .lru)
    (h : tlb.VictimsInOrder uses) {page : Word} (hhit : tlb.hits page ≠ []) :
    ¬ ((tlb.getTlbFrame settings page).tlb.victims.Perm
      ((tlb.getTlbFrame settings page).tlb.used.map some)) := by
  intro hperm
  obtain ⟨moved, hmoved, hlength⟩ := getTlbFrame_victims_lru hlru tlb page
  have hused : (tlb.getTlbFrame settings page).tlb.used = tlb.used := by
    rw [used, used]
    apply List.filter_congr
    intro j _
    simp [inUse_getTlbFrame]
  have hlengths := hperm.length_eq
  rw [hmoved, hused, List.length_append, List.length_map, hlength, h.length_used] at hlengths
  have hpos := List.length_pos_iff.2 hhit
  omega

/-- A sequence from victims in order on does what LRU asks exactly if no lookup hits. -/
theorem leastRecentRun_iff_neverHits (hlru : settings.replaceAlgorithm = .lru)
    {actions : List TlbAction} (hactions : ∀ action ∈ actions, AddsOrLooksUp action)
    (h : tlb.VictimsInOrder uses) :
    LeastRecentRun settings actions tlb uses ↔ NeverHits settings actions tlb := by
  induction actions generalizing tlb uses with
  | nil => rfl
  | cons action rest ih =>
      have hrest : ∀ action ∈ rest, AddsOrLooksUp action :=
        fun action hmem => hactions action (List.mem_cons_of_mem _ hmem)
      have hfirst := hactions action List.mem_cons_self
      rw [LeastRecentRun, NeverHits]
      cases action with
      | dropTlbEntry page frame => cases hfirst
      | cleanTlb => cases hfirst
      | addTlbEntry page frame =>
          obtain ⟨⟨tlb', mutex⟩, hadd⟩ := h.add_isSome page frame
          have hcall : tlb.call settings (.addTlbEntry page frame) = some (tlb', mutex) := hadd
          simp only [hcall]
          constructor
          · rintro ⟨-, hrun⟩
            exact ⟨by simp, (ih hrest (h.add hadd)).1 hrun⟩
          · rintro ⟨-, hnone⟩
            exact ⟨h.target, (ih hrest (h.add hadd)).2 hnone⟩
      | getTlbFrame page =>
          have hcall : tlb.call settings (.getTlbFrame page) =
              some ((tlb.getTlbFrame settings page).tlb,
                (tlb.getTlbFrame settings page).mutex) := rfl
          simp only [hcall]
          by_cases hmiss : tlb.hits page = []
          · have hvictims : (tlb.getTlbFrame settings page).tlb.victims = tlb.victims := by
              obtain ⟨moved, hmoved, hlength⟩ := getTlbFrame_victims_lru hlru tlb page
              rw [hmiss, List.length_nil, List.length_eq_zero_iff] at hlength
              rw [hmoved, hlength, List.append_nil]
            have huses : tlb.usesAfter uses (.getTlbFrame page) = uses := by
              rw [usesAfter, hmiss, List.append_nil]
            rw [huses]
            have hnext := ih hrest (h.of_inUse hvictims (inUse_getTlbFrame settings tlb page))
            constructor
            · rintro ⟨-, hrun⟩
              refine ⟨fun page' heq => ?_, hnext.1 hrun⟩
              cases heq
              exact hmiss
            · rintro ⟨-, hnone⟩
              refine ⟨fun i hi => ?_, hnext.2 hnone⟩
              rw [hmiss] at hi
              cases hi
          · constructor
            · rintro ⟨hrecent, -⟩
              obtain ⟨i, hi⟩ : ∃ i, (tlb.hits page).getLast? = some i :=
                ⟨_, List.getLast?_eq_some_getLast hmiss⟩
              exact absurd (hrecent i hi).1 (h.not_perm_of_hit hlru hmiss)
            · rintro ⟨hnone, -⟩
              exact absurd (hnone page rfl) hmiss

end Tlb

/-- For every sequence of additions and lookups: LRU is kept if and only if no lookup hits. -/
theorem leastRecent_iff_neverHits (hlru : settings.replaceAlgorithm = .lru)
    {actions : List TlbAction} (hactions : ∀ action ∈ actions, Tlb.AddsOrLooksUp action) :
    Tlb.LeastRecentRun settings actions (Tlb.create n) [] ↔
      Tlb.NeverHits settings actions (Tlb.create n) := by
  apply Tlb.leastRecentRun_iff_neverHits hlru hactions
  exact ⟨rfl, fun i hi => by simp [Tlb.InUse, Tlb.create] at hi⟩

theorem leastRecent_iff_neverHits_two :
    Tlb.LeastRecentRun (.lru 2) [.addTlbEntry 1 10, .getTlbFrame 2, .addTlbEntry 2 20,
      .addTlbEntry 3 30] (Tlb.create 2) [] := by
  refine (leastRecent_iff_neverHits rfl ?_).2 ?_
  · intro action haction
    simp only [List.mem_cons, List.not_mem_nil, or_false] at haction
    rcases haction with rfl | rfl | rfl | rfl <;> trivial
  · refine ⟨by simp, ⟨fun page heq => ?_, ⟨by simp, ⟨by simp, trivial⟩⟩⟩⟩
    cases heq
    decide

/-- Page 1 is hit, and goes when the next page comes, though page 2 has not been used since. -/
theorem not_leastRecent : ¬ Tlb.LeastRecentRun (.lru 2) [.addTlbEntry 1 10, .addTlbEntry 2 20,
    .getTlbFrame 1, .addTlbEntry 3 30] (Tlb.create 2) [] := by
  intro h
  have hhit := h.2.2.1 0 (by decide)
  exact absurd hhit.2 (by decide)

end SistemasOperativos
