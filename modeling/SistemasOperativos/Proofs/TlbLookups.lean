import SistemasOperativos.Proofs.TlbCalls

/-!
# What a lookup of the TLB finds

A lookup should give the frame of the last addition for its page, unless that has been dropped or
cleaned since.  `add_tlb_entry` does not look whether the page has an entry already: then two
entries answer, the one further back wins, and the lookup counts twice.  As long as no addition
leaves two entries for a page, lookups are right.
-/

namespace SistemasOperativos

variable {n : ℕ} {settings : TlbSettings n}

/-- The frame of the last addition for each page that has not been dropped or cleaned since, after
a call. -/
def latestAfter (latest : Word → Option Word) : TlbAction → Word → Option Word
  | .getTlbFrame _ => latest
  | .addTlbEntry page frame => Function.update latest page (some frame)
  | .dropTlbEntry page frame =>
      if latest page = some frame then Function.update latest page none else latest
  | .cleanTlb => fun _ => none

/-- The TLB, with the last addition for each page. -/
def lookupMachine (settings : TlbSettings n) :
    Machine (Tlb n × (Word → Option Word)) TlbAction where
  initial := (Tlb.create n, fun _ => none)
  step action s := (s.1.call settings action).map fun after => (after.1, latestAfter s.2 action)

namespace Tlb

/-- A lookup of the page, made now, finds nothing or the frame of its last addition, and one of
the counters counts it, once. -/
structure Translates (settings : TlbSettings n) (tlb : Tlb n) (latest : Word → Option Word)
    (page : Word) : Prop where
  frame : (tlb.getTlbFrame settings page).frame = -1 ∨
    latest page = some (tlb.getTlbFrame settings page).frame
  counted :
    ((tlb.getTlbFrame settings page).tlb.hitCounter = tlb.hitCounter + 1 ∧
      (tlb.getTlbFrame settings page).tlb.missCounter = tlb.missCounter) ∨
    (tlb.getTlbFrame settings page).tlb.hitCounter = tlb.hitCounter ∧
      (tlb.getTlbFrame settings page).tlb.missCounter = tlb.missCounter + 1

/-- An addition leaves no second entry for its page, and its frame is not the one that says that
there is none. -/
def AddsApart (action : TlbAction) (tlb : Tlb n) : Prop :=
  match action with
  | .addTlbEntry page frame =>
      (∀ i, tlb.Matches page i → tlb.target = some i) ∧ ∀ i, tlb.target = some i → frame ≠ -1
  | _ => True

instance (action : TlbAction) (tlb : Tlb n) : Decidable (AddsApart action tlb) :=
  match action with
  | .getTlbFrame _ => inferInstanceAs (Decidable True)
  | .addTlbEntry page frame =>
      inferInstanceAs (Decidable ((∀ i, tlb.Matches page i → tlb.target = some i) ∧
        ∀ i, tlb.target = some i → frame ≠ -1))
  | .dropTlbEntry _ _ => inferInstanceAs (Decidable True)
  | .cleanTlb => inferInstanceAs (Decidable True)

/-- No two entries in use have the same page, nor does a free one in front of one in use; and
what is in use is the last addition for its page. -/
structure Coherent (tlb : Tlb n) (latest : Word → Option Word) : Prop where
  distinct : ∀ i j, tlb.InUse i → tlb.InUse j →
    (tlb.entries i).page = (tlb.entries j).page → i = j
  behind : ∀ i j, i < j → ¬ tlb.InUse i → tlb.InUse j →
    (tlb.entries i).page ≠ (tlb.entries j).page
  frames : ∀ i, tlb.InUse i → (tlb.entries i).frame ≠ -1
  latest : ∀ i, tlb.InUse i → latest (tlb.entries i).page = some (tlb.entries i).frame

variable {tlb tlb' : Tlb n} {latest : Word → Option Word} {page frame : Word}

theorem coherent_of_unused (h : ∀ i, ¬ tlb.InUse i) : tlb.Coherent latest where
  distinct i _ hi := absurd hi (h i)
  behind _ j _ _ hj := absurd hj (h j)
  frames i hi := absurd hi (h i)
  latest i hi := absurd hi (h i)

theorem hits_nodup (tlb : Tlb n) (page : Word) : (tlb.hits page).Nodup :=
  (List.nodup_finRange n).filter _

/-- Of the entries in use at most one has the page. -/
theorem Coherent.hits_cases (h : tlb.Coherent latest) (page : Word) :
    tlb.hits page = [] ∨ ∃ i, tlb.Matches page i ∧ tlb.hits page = [i] := by
  have hnodup := tlb.hits_nodup page
  have hmem : ∀ i ∈ tlb.hits page, tlb.Matches page i := fun i hi => mem_hits.1 hi
  rcases hhits : tlb.hits page with _ | ⟨i, _ | ⟨j, rest⟩⟩
  · exact .inl rfl
  · exact .inr ⟨i, hmem i (by simp [hhits]), rfl⟩
  · have hi := hmem i (by simp [hhits])
    have hj := hmem j (by simp [hhits])
    have heq := h.distinct i j hi.2 hj.2 (hi.1.trans hj.1.symm)
    rw [hhits, heq] at hnodup
    simp at hnodup

theorem Coherent.translates (h : tlb.Coherent latest) (page : Word) :
    tlb.Translates settings latest page := by
  obtain ⟨-, hframe, hhits, hmisses⟩ := getTlbFrame_spec settings tlb page
  rcases h.hits_cases page with hnone | ⟨i, hi, hone⟩
  · rw [hnone] at hframe hhits
    have hmiss : (tlb.getTlbFrame settings page).frame = -1 := hframe
    rw [if_pos hmiss] at hmisses
    exact ⟨.inl hmiss, .inr ⟨hhits, hmisses⟩⟩
  · rw [hone] at hframe hhits
    have hhit : (tlb.getTlbFrame settings page).frame = (tlb.entries i).frame := hframe
    rw [hhit, if_neg (h.frames i hi.2)] at hmisses
    refine ⟨.inr ?_, .inl ⟨hhits, hmisses⟩⟩
    rw [hhit, ← hi.1]
    exact h.latest i hi.2

/-! ## What the calls keep -/

theorem Coherent.of_entries (h : tlb.Coherent latest) (heq : tlb'.entries = tlb.entries) :
    tlb'.Coherent latest := by
  have hinUse : ∀ i, tlb'.InUse i ↔ tlb.InUse i := by
    intro i
    simp only [InUse, heq]
  refine ⟨?_, ?_, ?_, ?_⟩
  · simpa only [hinUse, heq] using h.distinct
  · simpa only [hinUse, heq] using h.behind
  · simpa only [hinUse, heq] using h.frames
  · simpa only [hinUse, heq] using h.latest

/-- An entry filled for a page that no other entry in use has, with none free in front of it. -/
theorem Coherent.fill (h : tlb.Coherent latest) {i : Fin n}
    (hothers : ∀ j, tlb.Matches page j → j = i) (hframe : frame ≠ -1)
    (hbefore : ∀ j < i, tlb.InUse j) :
    (tlb.fill i page frame).Coherent (Function.update latest page (some frame)) := by
  have hentry : ∀ j, (tlb.fill i page frame).entries j =
      if j = i then ⟨page, frame, false⟩ else tlb.entries j := by
    intro j
    simp [Tlb.fill, Function.update_apply]
  have hinUse : ∀ j, j ≠ i → ((tlb.fill i page frame).InUse j ↔ tlb.InUse j) := by
    intro j hj
    simp [InUse, hentry, hj]
  have hself : (tlb.fill i page frame).InUse i := by simp [InUse, hentry]
  have hpage : ∀ j, j ≠ i → tlb.InUse j → (tlb.entries j).page ≠ page := by
    intro j hj huse heq
    exact hj (hothers j ⟨heq, huse⟩)
  refine ⟨?_, ?_, ?_, ?_⟩
  · intro j k hj hk heq
    by_cases hji : j = i
    · by_cases hki : k = i
      · rw [hji, hki]
      · rw [hentry, hentry, if_pos hji, if_neg hki] at heq
        exact absurd heq.symm (hpage k hki ((hinUse k hki).1 hk))
    · by_cases hki : k = i
      · rw [hentry, hentry, if_neg hji, if_pos hki] at heq
        exact absurd heq (hpage j hji ((hinUse j hji).1 hj))
      · rw [hentry, hentry, if_neg hji, if_neg hki] at heq
        exact h.distinct j k ((hinUse j hji).1 hj) ((hinUse k hki).1 hk) heq
  · intro j k hjk hj hk heq
    have hji : j ≠ i := fun hji => hj (hji ▸ hself)
    have hfree : ¬ tlb.InUse j := fun huse => hj ((hinUse j hji).2 huse)
    by_cases hki : k = i
    · exact hfree (hbefore j (hki ▸ hjk))
    · rw [hentry, hentry, if_neg hji, if_neg hki] at heq
      exact h.behind j k hjk hfree ((hinUse k hki).1 hk) heq
  · intro j hj
    by_cases hji : j = i
    · rw [hentry, if_pos hji]
      exact hframe
    · rw [hentry, if_neg hji]
      exact h.frames j ((hinUse j hji).1 hj)
  · intro j hj
    by_cases hji : j = i
    · rw [hentry, if_pos hji, Function.update_self]
    · have huse := (hinUse j hji).1 hj
      rw [hentry, if_neg hji, Function.update_of_ne (hpage j hji huse)]
      exact h.latest j huse

/-- An entry freed for the page and the frame it has. -/
theorem Coherent.free (h : tlb.Coherent latest) {i : Fin n} (hnames : tlb.Names page frame i)
    (hbefore : ∀ j < i, ¬ tlb.Names page frame j) :
    (tlb.free i).Coherent (latestAfter latest (.dropTlbEntry page frame)) := by
  have hinUse : ∀ j, (tlb.free i).InUse j ↔ j ≠ i ∧ tlb.InUse j := by
    intro j
    by_cases hji : j = i
    · subst hji
      simp [InUse, Tlb.free]
    · simp [InUse, Tlb.free, hji]
  have hpage : ∀ j, ((tlb.free i).entries j).page = (tlb.entries j).page := by
    intro j
    by_cases hji : j = i
    · subst hji
      simp [Tlb.free]
    · simp [Tlb.free, hji]
  have hframe : ∀ j, ((tlb.free i).entries j).frame = (tlb.entries j).frame := by
    intro j
    by_cases hji : j = i
    · subst hji
      simp [Tlb.free]
    · simp [Tlb.free, hji]
  -- No entry in use but the one freed has the page.
  have hother : ∀ j, j ≠ i → tlb.InUse j → (tlb.entries j).page ≠ page ∨
      latest page ≠ some frame := by
    intro j hji huse
    by_contra hboth
    rw [not_or, not_not, not_not] at hboth
    have hlatest := h.latest j huse
    rw [hboth.1, hboth.2, Option.some.injEq] at hlatest
    have hsame : (tlb.entries i).page = (tlb.entries j).page := hnames.1.trans hboth.1.symm
    rcases Fin.lt_or_lt_of_ne hji with hlt | hgt
    · exact hbefore j hlt ⟨hboth.1, hlatest.symm⟩
    · by_cases hi : tlb.InUse i
      · exact hji (h.distinct i j hi huse hsame).symm
      · exact h.behind i j hgt hi huse hsame
  refine ⟨?_, ?_, ?_, ?_⟩
  · intro j k hj hk heq
    rw [hpage, hpage] at heq
    exact h.distinct j k ((hinUse j).1 hj).2 ((hinUse k).1 hk).2 heq
  · intro j k hjk hj hk heq
    rw [hpage, hpage] at heq
    obtain ⟨hki, huse⟩ := (hinUse k).1 hk
    by_cases hj' : tlb.InUse j
    · exact absurd (h.distinct j k hj' huse heq) (Fin.ne_of_lt hjk)
    · exact h.behind j k hjk hj' huse heq
  · intro j hj
    rw [hframe]
    exact h.frames j ((hinUse j).1 hj).2
  · intro j hj
    obtain ⟨hji, huse⟩ := (hinUse j).1 hj
    rw [hpage, hframe, latestAfter]
    split
    · rename_i hlatest
      rcases hother j hji huse with hne | hne
      · rw [Function.update_of_ne hne]
        exact h.latest j huse
      · exact absurd hlatest hne
    · exact h.latest j huse

theorem Coherent.drop (h : tlb.Coherent latest) (page frame : Word) :
    (tlb.dropTlbEntry page frame).1.Coherent
      (latestAfter latest (.dropTlbEntry page frame)) := by
  rcases dropTlbEntry_cases tlb page frame with ⟨i, hnames, hbefore, hdrop⟩ | ⟨hnone, hdrop⟩
  · rw [hdrop]
    exact h.free hnames hbefore
  · rw [hdrop]
    refine ⟨h.distinct, h.behind, h.frames, fun i huse => ?_⟩
    rw [latestAfter]
    split
    · rename_i hlatest
      by_cases hpage : (tlb.entries i).page = page
      · have hsome := h.latest i huse
        rw [hpage, hlatest, Option.some.injEq] at hsome
        exact absurd ⟨hpage, hsome.symm⟩ (hnone i)
      · rw [Function.update_of_ne hpage]
        exact h.latest i huse
    · exact h.latest i huse

/-- What every call but a careless addition keeps. -/
theorem Coherent.call (h : tlb.Coherent latest) {action : TlbAction} {mutex : List MutexOp}
    (hguard : AddsApart action tlb) (hcall : tlb.call settings action = some (tlb', mutex)) :
    tlb'.Coherent (latestAfter latest action) := by
  cases action with
  | getTlbFrame page =>
      cases hcall
      exact h.of_entries (getTlbFrame_spec settings tlb page).1
  | addTlbEntry page frame =>
      obtain ⟨hothers, hframe⟩ := hguard
      have honly : ∀ i, tlb.target = some i → ∀ j, tlb.Matches page j → j = i := by
        intro i hi j hj
        exact (Option.some.inj (hi.symm.trans (hothers j hj))).symm
      rcases addTlbEntry_cases hcall with ⟨i, htarget, -, hbefore, rfl⟩ |
        ⟨htarget, -, -, rfl⟩ | ⟨hall, victim, rest, htarget, -, rfl⟩
      · exact h.fill (honly i htarget) (hframe i htarget) hbefore
      · refine ⟨h.distinct, h.behind, h.frames, fun i huse => ?_⟩
        have hpage : (tlb'.entries i).page ≠ page := by
          intro heq
          have := hothers i ⟨heq, huse⟩
          rw [htarget] at this
          cases this
        rw [latestAfter, Function.update_of_ne hpage]
        exact h.latest i huse
      · have hfill := h.fill (honly victim htarget) (hframe victim htarget) fun j _ => hall j
        exact hfill.of_entries rfl
  | dropTlbEntry page frame =>
      obtain rfl : (tlb.dropTlbEntry page frame).1 = tlb' := congrArg Prod.fst (Option.some.inj hcall)
      exact h.drop page frame
  | cleanTlb =>
      cases hcall
      exact coherent_of_unused fun i hi => by simp [InUse] at hi

end Tlb

/-- As long as additions keep apart, every lookup is right in every state. -/
theorem translates_of_reachable (settings : TlbSettings n) {s : Tlb n × (Word → Option Word)}
    (hs : (lookupMachine settings).ReachableBy (fun action s => Tlb.AddsApart action s.1) s)
    (page : Word) : s.1.Translates settings s.2 page := by
  have hcoherent : s.1.Coherent s.2 := by
    refine hs.invariant ?_ ?_
    · exact Tlb.coherent_of_unused fun i hi => by
        simp [lookupMachine, Tlb.InUse, Tlb.create] at hi
    · intro action s s' hguard hs hstep
      obtain ⟨after, hcall, rfl⟩ := Option.map_eq_some_iff.1 hstep
      exact hs.call hguard hcall
  exact hcoherent.translates page

theorem translates_of_reachable_two : ∃ s : Tlb 2 × (Word → Option Word),
    (lookupMachine (.fifo 2)).ReachableBy (fun action s => Tlb.AddsApart action s.1) s ∧
      (s.1.getTlbFrame (.fifo 2) 2).frame = 20 ∧ s.1.Translates (.fifo 2) s.2 2 := by
  obtain ⟨s, hs, htest⟩ := (lookupMachine (.fifo 2)).exists_reachableBy_of_run
    (fun action s => Tlb.AddsApart action s.1)
    [.addTlbEntry 1 10, .addTlbEntry 2 20, .addTlbEntry 3 30]
    (fun s => (s.1.getTlbFrame (.fifo 2) 2).frame = 20) (by decide)
  exact ⟨s, hs, by simpa using htest, translates_of_reachable (.fifo 2) hs 2⟩

/-- Page 2 is added again when there is no free entry: the lookup still finds its old frame. -/
theorem not_translates : ∃ s : Tlb 2 × (Word → Option Word),
    (lookupMachine (.fifo 2)).Reachable s ∧ ¬ s.1.Translates (.fifo 2) s.2 2 := by
  obtain ⟨s, hs, htest⟩ := (lookupMachine (.fifo 2)).exists_reachable_of_run
    [.addTlbEntry 1 10, .addTlbEntry 2 20, .addTlbEntry 2 30]
    (fun s => (s.1.getTlbFrame (.fifo 2) 2).frame = 20 ∧ s.2 2 = some 30) (by decide)
  rw [decide_eq_true_eq] at htest
  refine ⟨s, hs, fun h => ?_⟩
  rcases h.frame with hnone | hsome
  · rw [htest.1] at hnone
    exact absurd hnone (by decide)
  · rw [htest.1, htest.2] at hsome
    exact absurd hsome (by decide)

end SistemasOperativos
