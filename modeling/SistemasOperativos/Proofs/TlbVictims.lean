import SistemasOperativos.Proofs.TlbCalls
import Mathlib.Data.List.Count
import Mathlib.Data.List.Dedup

/-!
# The victims of the TLB

The victims should be the entries in use, in the order in which they were last filled, so that a
replacement takes the one in use longest.  `add_tlb_entry` keeps that order; `drop_tlb_entry` and
`clean_tlb` free entries and leave them among the victims.
-/

namespace SistemasOperativos

/-! ## Order by last occurrence -/

/-- A new last occurrence takes an item to the end. -/
theorem dedup_concat {α : Type*} [DecidableEq α] (l : List α) (a : α) :
    (l ++ [a]).dedup = (l.dedup.filter fun b => b ≠ a) ++ [a] := by
  induction l with
  | nil => simp
  | cons b rest ih =>
      rw [List.cons_append]
      by_cases hba : b = a
      · subst hba
        rw [List.dedup_cons_of_mem (by simp), ih]
        by_cases hmem : b ∈ rest
        · rw [List.dedup_cons_of_mem hmem]
        · rw [List.dedup_cons_of_notMem hmem]
          simp
      · by_cases hmem : b ∈ rest
        · rw [List.dedup_cons_of_mem (by simp [hmem]), List.dedup_cons_of_mem hmem, ih]
        · rw [List.dedup_cons_of_notMem (by simp [hmem, hba]), List.dedup_cons_of_notMem hmem, ih]
          simp [hba]

variable {n : ℕ} {settings : TlbSettings n}

namespace Tlb

/-- The entries filled so far, one after the other, after a call. -/
def fillsAfter (tlb : Tlb n) (fills : List (Fin n)) : TlbAction → List (Fin n)
  | .addTlbEntry _ _ => fills ++ tlb.target.toList
  | _ => fills

/-- The entries in use, the one filled longest ago first. -/
def inFillOrder (tlb : Tlb n) (fills : List (Fin n)) : List (Fin n) :=
  fills.dedup.filter fun i => tlb.InUse i

/-- The victims are the entries in use, once each, in the order in which they were filled last. -/
structure VictimsInOrder (tlb : Tlb n) (fills : List (Fin n)) : Prop where
  victims : tlb.victims = (tlb.inFillOrder fills).map some
  filled : ∀ i, tlb.InUse i → i ∈ fills

variable {tlb tlb' : Tlb n} {fills : List (Fin n)} {page frame : Word}

theorem inFillOrder_nodup : (tlb.inFillOrder fills).Nodup :=
  (List.nodup_dedup fills).filter _

theorem mem_inFillOrder {i : Fin n} : i ∈ tlb.inFillOrder fills ↔ i ∈ fills ∧ tlb.InUse i := by
  simp [inFillOrder]

/-- Each entry in use is there once, and no free entry. -/
theorem VictimsInOrder.count (h : tlb.VictimsInOrder fills) (i : Fin n) :
    tlb.victims.count (some i) = if tlb.InUse i then 1 else 0 := by
  have hinjective : Function.Injective (some : Fin n → Option (Fin n)) := Option.some_injective _
  rw [h.victims, List.count_map_of_injective _ _ hinjective,
    List.Nodup.count inFillOrder_nodup]
  by_cases huse : tlb.InUse i
  · rw [if_pos huse, if_pos (mem_inFillOrder.2 ⟨h.filled i huse, huse⟩)]
  · rw [if_neg huse, if_neg fun hmem => huse (mem_inFillOrder.1 hmem).2]

theorem VictimsInOrder.length_le (h : tlb.VictimsInOrder fills) : tlb.victims.length ≤ n := by
  have hnodup : (tlb.inFillOrder fills).Nodup := inFillOrder_nodup
  have hle := List.Nodup.length_le_of_subset hnodup fun i _ => List.mem_finRange i
  rw [h.victims, List.length_map]
  simpa using hle

/-- What a replacement evicts has been in use longest. -/
theorem VictimsInOrder.target (h : tlb.VictimsInOrder fills) (hfull : ∀ i, tlb.InUse i) :
    tlb.target = (tlb.inFillOrder fills).head? := by
  have hfind : ((List.finRange n).find? fun i => (tlb.entries i).isFree) = none := by
    rw [List.find?_eq_none]
    intro i _
    simpa [InUse] using hfull i
  rw [Tlb.target, hfind, h.victims]
  cases tlb.inFillOrder fills <;> rfl

/-! ## What the calls keep -/

theorem inUse_fill (tlb : Tlb n) (page frame : Word) (i j : Fin n) :
    (tlb.fill i page frame).InUse j ↔ j = i ∨ tlb.InUse j := by
  by_cases hji : j = i
  · subst hji
    simp [InUse, fill]
  · simp [InUse, fill, hji]

/-- Filling an entry puts it at the end of the order. -/
theorem inFillOrder_fill (tlb : Tlb n) (fills : List (Fin n)) (page frame : Word) (i : Fin n) :
    (tlb.fill i page frame).inFillOrder (fills ++ [i]) =
      ((tlb.inFillOrder fills).filter fun j => j ≠ i) ++ [i] := by
  rw [inFillOrder, dedup_concat, List.filter_append]
  congr 1
  · rw [inFillOrder, List.filter_filter, List.filter_filter]
    apply List.filter_congr
    intro j _
    by_cases hji : j = i
    · simp [hji]
    · have huse := inUse_fill tlb page frame i j
      simp [hji, huse]
  · have huse := (inUse_fill tlb page frame i i).2 (.inl rfl)
    simp [huse]

/-- An addition keeps the victims in order, in a free entry as in place of a victim. -/
theorem VictimsInOrder.add (h : tlb.VictimsInOrder fills) {mutex : List MutexOp}
    (hadd : tlb.addTlbEntry page frame = some (tlb', mutex)) :
    tlb'.VictimsInOrder (tlb.fillsAfter fills (.addTlbEntry page frame)) := by
  rcases addTlbEntry_cases hadd with ⟨i, htarget, hfree, -, rfl⟩ | ⟨htarget, -, -, rfl⟩ |
    ⟨hall, victim, rest, htarget, hvictims, rfl⟩
  · rw [fillsAfter, htarget, Option.toList_some]
    refine ⟨?_, fun j hj => ?_⟩
    · have hothers : ((tlb.inFillOrder fills).filter fun j => j ≠ i) = tlb.inFillOrder fills := by
        rw [List.filter_eq_self]
        intro j hj
        have : j ≠ i := fun hji => hfree (hji ▸ (mem_inFillOrder.1 hj).2)
        simpa using this
      rw [inFillOrder_fill, hothers, List.map_append, ← h.victims]
      rfl
    · rcases (inUse_fill tlb page frame i j).1 hj with rfl | huse
      · simp
      · exact List.mem_append_left _ (h.filled j huse)
  · rw [fillsAfter, htarget, Option.toList_none, List.append_nil]
    exact h
  · rw [fillsAfter, htarget, Option.toList_some]
    obtain ⟨first, others, horder, hfirst, rfl⟩ := List.map_eq_cons_iff.1 (h.victims.symm.trans hvictims)
    obtain rfl := Option.some.inj hfirst
    have hnodup : (tlb.inFillOrder fills).Nodup := inFillOrder_nodup
    rw [horder, List.nodup_cons] at hnodup
    have hothers : ((tlb.inFillOrder fills).filter fun j => j ≠ first) = others := by
      rw [horder, List.filter_cons_of_neg (by simp), List.filter_eq_self]
      intro j hj
      have : j ≠ first := fun hji => hnodup.1 (hji ▸ hj)
      simpa using this
    refine ⟨?_, fun j _ => List.mem_append_left _ (h.filled j (hall j))⟩
    rw [inFillOrder_fill]
    have hsame : Tlb.inFillOrder { tlb with victims := others.map some } fills =
        tlb.inFillOrder fills := rfl
    rw [hsame, hothers, List.map_append]
    rfl

/-- Freeing what is free already changes nothing of the order. -/
theorem VictimsInOrder.of_inUse (h : tlb.VictimsInOrder fills)
    (hvictims : tlb'.victims = tlb.victims) (hinUse : ∀ i, tlb'.InUse i ↔ tlb.InUse i) :
    tlb'.VictimsInOrder fills := by
  have horder : tlb'.inFillOrder fills = tlb.inFillOrder fills := by
    rw [inFillOrder, inFillOrder]
    apply List.filter_congr
    intro i _
    simp [hinUse]
  exact ⟨by rw [hvictims, horder, h.victims], fun i hi => h.filled i ((hinUse i).1 hi)⟩

/-- A call frees no entry that is in use: no entry is when `clean_tlb` is called, nor the one
that `drop_tlb_entry` frees. -/
def FreesNothing (action : TlbAction) (tlb : Tlb n) : Prop :=
  match action with
  | .dropTlbEntry page frame =>
      ∀ i, tlb.Names page frame i → (∀ j < i, ¬ tlb.Names page frame j) → ¬ tlb.InUse i
  | .cleanTlb => ∀ i, ¬ tlb.InUse i
  | _ => True

instance (action : TlbAction) (tlb : Tlb n) : Decidable (FreesNothing action tlb) :=
  match action with
  | .getTlbFrame _ => inferInstanceAs (Decidable True)
  | .addTlbEntry _ _ => inferInstanceAs (Decidable True)
  | .dropTlbEntry page frame =>
      inferInstanceAs (Decidable (∀ i, tlb.Names page frame i →
        (∀ j < i, ¬ tlb.Names page frame j) → ¬ tlb.InUse i))
  | .cleanTlb => inferInstanceAs (Decidable (∀ i, ¬ tlb.InUse i))

theorem VictimsInOrder.call (hfifo : settings.replaceAlgorithm = .fifo)
    (h : tlb.VictimsInOrder fills) {action : TlbAction} {mutex : List MutexOp}
    (hguard : FreesNothing action tlb) (hcall : tlb.call settings action = some (tlb', mutex)) :
    tlb'.VictimsInOrder (tlb.fillsAfter fills action) := by
  cases action with
  | getTlbFrame page =>
      cases hcall
      apply h.of_inUse (getTlbFrame_victims_fifo hfifo tlb page)
      intro i
      rw [InUse, InUse, (getTlbFrame_spec settings tlb page).1]
  | addTlbEntry page frame => exact h.add hcall
  | dropTlbEntry page frame =>
      obtain rfl : (tlb.dropTlbEntry page frame).1 = tlb' := congrArg Prod.fst (Option.some.inj hcall)
      rcases dropTlbEntry_cases tlb page frame with ⟨i, hnames, hbefore, hdrop⟩ | ⟨-, hdrop⟩
      · rw [hdrop]
        have hvictims : (tlb.free i).victims = tlb.victims := rfl
        refine h.of_inUse hvictims fun j => ?_
        by_cases hji : j = i
        · subst hji
          have hfree := hguard j hnames hbefore
          simp only [hfree, iff_false]
          simp [InUse, free]
        · simp [InUse, free, hji]
      · rw [hdrop]
        exact h
  | cleanTlb =>
      obtain rfl : tlb.cleanTlb.1 = tlb' := congrArg Prod.fst (Option.some.inj hcall)
      have hvictims : tlb.cleanTlb.1.victims = tlb.victims := rfl
      refine h.of_inUse hvictims fun i => ?_
      have hfree := hguard i
      simp only [hfree, iff_false]
      simp [InUse, cleanTlb]

end Tlb

/-- The TLB, with the entries filled so far. -/
def victimMachine (settings : TlbSettings n) : Machine (Tlb n × List (Fin n)) TlbAction where
  initial := (Tlb.create n, [])
  step action s :=
    (s.1.call settings action).map fun after => (after.1, s.1.fillsAfter s.2 action)

/-- As long as no entry in use is freed, the victims are in order in every state; so there is one
for each entry in use, and a replacement evicts the one in use longest. -/
theorem victims_of_reachable (hfifo : settings.replaceAlgorithm = .fifo)
    {s : Tlb n × List (Fin n)}
    (hs : (victimMachine settings).ReachableBy (fun action s => Tlb.FreesNothing action s.1) s) :
    s.1.VictimsInOrder s.2 ∧
      (∀ i, s.1.victims.count (some i) = if s.1.InUse i then 1 else 0) ∧
      s.1.victims.length ≤ n ∧
      ((∀ i, s.1.InUse i) → s.1.target = (s.1.inFillOrder s.2).head?) := by
  have horder : s.1.VictimsInOrder s.2 := by
    refine hs.invariant ?_ ?_
    · exact ⟨rfl, fun i hi => by simp [victimMachine, Tlb.InUse, Tlb.create] at hi⟩
    · intro action s s' hguard hs hstep
      obtain ⟨after, hcall, rfl⟩ := Option.map_eq_some_iff.1 hstep
      exact hs.call hfifo hguard hcall
  exact ⟨horder, horder.count, horder.length_le, horder.target⟩

theorem victims_of_reachable_two : ∃ s : Tlb 2 × List (Fin 2),
    (victimMachine (.fifo 2)).ReachableBy (fun action s => Tlb.FreesNothing action s.1) s ∧
      s.1.victims = [some 1, some 0] ∧ s.1.VictimsInOrder s.2 := by
  obtain ⟨s, hs, htest⟩ := (victimMachine (.fifo 2)).exists_reachableBy_of_run
    (fun action s => Tlb.FreesNothing action s.1)
    [.addTlbEntry 1 10, .addTlbEntry 2 20, .addTlbEntry 3 30]
    (fun s => s.1.victims = [some 1, some 0]) (by decide)
  exact ⟨s, hs, by simpa using htest, (victims_of_reachable rfl hs).1⟩

/-- An entry is filled, cleaned and filled again: it is among the victims twice. -/
theorem not_victims : ∃ s : Tlb 1 × List (Fin 1), (victimMachine (.fifo 1)).Reachable s ∧
    s.1.victims = [some 0, some 0] ∧ ¬ s.1.VictimsInOrder s.2 := by
  obtain ⟨s, hs, htest⟩ := (victimMachine (.fifo 1)).exists_reachable_of_run
    [.addTlbEntry 1 10, .cleanTlb, .addTlbEntry 2 20]
    (fun s => s.1.victims = [some 0, some 0]) (by decide)
  rw [decide_eq_true_eq] at htest
  refine ⟨s, hs, htest, fun h => ?_⟩
  have hle := h.length_le
  rw [htest] at hle
  exact absurd hle (by decide)

end SistemasOperativos
