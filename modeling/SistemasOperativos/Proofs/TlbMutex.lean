import SistemasOperativos.Proofs.TlbCalls

/-!
# The mutex of the TLB

`tlb_mutex` is a default mutex: a thread that locks it twice waits for itself.  The loops lock it
for every entry and release it only for an entry they stop or hit at, so nearly every call keeps
it, or blocks on its second entry.
-/

namespace SistemasOperativos

/-- What the mutex is after some operations of one thread: none where the thread waits for
itself, or releases what it does not hold. -/
def runMutex : Bool → List MutexOp → Option Bool
  | held, [] => some held
  | false, .lock :: rest => runMutex true rest
  | true, .lock :: _ => none
  | true, .unlock :: rest => runMutex false rest
  | false, .unlock :: _ => none

/-- The operations take the mutex only when it is free, and leave it free. -/
def Balanced (mutex : List MutexOp) : Prop :=
  runMutex false mutex = some false

instance (mutex : List MutexOp) : Decidable (Balanced mutex) :=
  inferInstanceAs (Decidable (_ = _))

theorem balanced_lock_unlock (rest : List MutexOp) :
    Balanced (.lock :: .unlock :: rest) ↔ Balanced rest := Iff.rfl

/-- A lock that is not followed by its release. -/
theorem not_balanced_lock {rest : List MutexOp} (hrest : rest.head? ≠ some .unlock) :
    ¬ Balanced (.lock :: rest) := by
  rcases rest with _ | ⟨_ | _, rest⟩
  · simp [Balanced, runMutex]
  · simp [Balanced, runMutex]
  · simp at hrest

variable {n : ℕ}

namespace Tlb

variable {settings : TlbSettings n} {tlb : Tlb n} {page frame : Word}

/-! ## What the calls do with the mutex -/

/-- A loop that finds nothing on its first entry goes on locking. -/
theorem findFree_head (tlb : Tlb n) (places : List (Fin n)) :
    (tlb.findFree places).2.head? ≠ some .unlock := by
  cases places with
  | nil => simp [findFree]
  | cons i rest =>
      rw [findFree]
      split <;> simp

theorem dropFrom_head (tlb : Tlb n) (page frame : Word) (places : List (Fin n)) :
    (tlb.dropFrom page frame places).2.head? ≠ some .unlock := by
  cases places with
  | nil => simp [dropFrom]
  | cons i rest =>
      rw [dropFrom]
      split <;> simp

/-- What the loop of `get_tlb_frame` does with the mutex. -/
def lookupMutex (tlb : Tlb n) (page : Word) (places : List (Fin n)) : List MutexOp :=
  places.flatMap fun i => if tlb.Matches page i then [.lock, .unlock] else [.lock]

theorem getTlbFrame_mutex (settings : TlbSettings n) (tlb : Tlb n) (page : Word) :
    (tlb.getTlbFrame settings page).mutex = tlb.lookupMutex page (List.finRange n) := by
  have hfold : ∀ (places : List (Fin n)) (lookup : Lookup n),
      (places.foldl (lookupEntry settings page) lookup).mutex =
        lookup.mutex ++ lookup.tlb.lookupMutex page places := by
    intro places
    induction places with
    | nil => exact fun lookup => (List.append_nil _).symm
    | cons i rest ih =>
        intro lookup
        have hsame := lookupEntry_entries settings page lookup i
        rw [List.foldl_cons, ih]
        simp only [lookupMutex, matches_congr hsame, List.flatMap_cons]
        rw [← List.append_assoc]
        congr 1
        rw [lookupEntry]
        split <;> rfl
  rw [getTlbFrame]
  split
  · exact hfold _ _
  · exact hfold _ _

theorem balanced_lookupMutex (places : List (Fin n)) :
    Balanced (tlb.lookupMutex page places) ↔ ∀ i ∈ places, tlb.Matches page i := by
  induction places with
  | nil => simp [lookupMutex, Balanced, runMutex]
  | cons i rest ih =>
      rw [lookupMutex, List.flatMap_cons]
      by_cases hmatches : tlb.Matches page i
      · rw [if_pos hmatches]
        refine (balanced_lock_unlock _).trans (ih.trans ?_)
        simp [hmatches]
      · rw [if_neg hmatches]
        have hhead : (tlb.lookupMutex page rest).head? ≠ some .unlock := by
          cases rest with
          | nil => simp [lookupMutex]
          | cons j rest =>
              rw [lookupMutex, List.flatMap_cons]
              split <;> simp
        constructor
        · intro hbalanced
          exact absurd hbalanced (not_balanced_lock hhead)
        · intro hall
          exact absurd (hall i List.mem_cons_self) hmatches

/-! ## Balanced calls -/

/-- What a call needs to leave the mutex free: a lookup, that every entry is in use for the page;
an addition, that the first entry is free; a removal, that the first entry has the page and the
frame, or that there is none. -/
def MeetsFirst (action : TlbAction) (tlb : Tlb n) : Prop :=
  match action with
  | .getTlbFrame page => ∀ i, tlb.Matches page i
  | .addTlbEntry _ _ => ∃ i : Fin n, i.val = 0 ∧ ¬ tlb.InUse i
  | .dropTlbEntry page frame => ∀ i : Fin n, i.val = 0 → tlb.Names page frame i
  | .cleanTlb => True

/-- The call returns, and its operations on the mutex are balanced. -/
def Releases (settings : TlbSettings n) (action : TlbAction) (tlb : Tlb n) : Prop :=
  ∃ after, tlb.call settings action = some after ∧ Balanced after.2

/-- Where the first entry is in use an addition locks twice. -/
theorem addTlbEntry_not_balanced {m : ℕ} {tlb : Tlb (m + 1)} {after : Tlb (m + 1) × List MutexOp}
    (hfirst : tlb.InUse 0) (h : tlb.addTlbEntry page frame = some after) :
    ¬ Balanced after.2 := by
  have hfind : tlb.findFree (List.finRange (m + 1)) =
      ((tlb.findFree ((List.finRange m).map Fin.succ)).1,
        .lock :: (tlb.findFree ((List.finRange m).map Fin.succ)).2) := by
    rw [List.finRange_succ, findFree, if_neg (by rw [hfirst]; decide)]
  have hhead := tlb.findFree_head ((List.finRange m).map Fin.succ)
  have happend : ∀ {last : List MutexOp}, last.head? ≠ some .unlock →
      ((tlb.findFree ((List.finRange m).map Fin.succ)).2 ++ last).head? ≠ some .unlock := by
    intro last hlast
    rw [List.head?_append]
    cases hops : (tlb.findFree ((List.finRange m).map Fin.succ)).2 with
    | nil => simpa using hlast
    | cons op rest => simpa [hops] using hhead
  rw [addTlbEntry, hfind] at h
  split at h
  · rename_i heq
    cases h
    obtain ⟨-, rfl⟩ := Prod.mk.injEq .. ▸ heq
    exact not_balanced_lock hhead
  · rename_i heq
    obtain ⟨-, rfl⟩ := Prod.mk.injEq .. ▸ heq
    split at h
    · cases h
      exact not_balanced_lock (happend (by simp))
    · cases h
    · cases h
      exact not_balanced_lock (happend (by simp))

theorem getTlbFrame_releases_iff (settings : TlbSettings n) (tlb : Tlb n) (page : Word) :
    tlb.Releases settings (.getTlbFrame page) ↔ MeetsFirst (.getTlbFrame page) tlb := by
  have hreleases : tlb.Releases settings (.getTlbFrame page) ↔
      Balanced (tlb.lookupMutex page (List.finRange n)) := by
    rw [← getTlbFrame_mutex settings tlb page]
    simp [Releases, call]
  rw [hreleases, balanced_lookupMutex]
  simp [MeetsFirst]

theorem addTlbEntry_releases_iff (settings : TlbSettings n) (tlb : Tlb n) (page frame : Word) :
    tlb.Releases settings (.addTlbEntry page frame) ↔
      MeetsFirst (.addTlbEntry page frame) tlb := by
  cases n with
  | zero =>
      constructor
      · rintro ⟨after, hcall, hbalanced⟩
        have hnone : tlb.findFree (List.finRange 0) = (none, []) := rfl
        rw [call, addTlbEntry, hnone] at hcall
        split at hcall
        · rename_i heq
          cases heq
        · rename_i heq
          cases heq
          split at hcall
          · cases hcall
            exact absurd hbalanced (show ¬ Balanced [.lock] by decide)
          · cases hcall
          · rename_i victim _ _
            exact victim.elim0
      · rintro ⟨i, -⟩
        exact i.elim0
  | succ m =>
      by_cases hfirst : tlb.InUse 0
      · constructor
        · rintro ⟨after, hcall, hbalanced⟩
          exact absurd hbalanced (addTlbEntry_not_balanced hfirst hcall)
        · rintro ⟨i, hi, hfree⟩
          obtain rfl : i = 0 := Fin.ext hi
          exact absurd hfirst hfree
      · have hfind : tlb.findFree (List.finRange (m + 1)) = (some 0, [.lock, .unlock]) := by
          rw [List.finRange_succ, findFree, if_pos (by simpa [InUse] using hfirst)]
        constructor
        · intro _
          exact ⟨0, rfl, hfirst⟩
        · intro _
          refine ⟨(tlb.fill 0 page frame, [.lock, .unlock]), ?_,
            show Balanced [.lock, .unlock] by decide⟩
          rw [call, addTlbEntry, hfind]

theorem dropTlbEntry_releases_iff (settings : TlbSettings n) (tlb : Tlb n) (page frame : Word) :
    tlb.Releases settings (.dropTlbEntry page frame) ↔
      MeetsFirst (.dropTlbEntry page frame) tlb := by
  have hreleases : tlb.Releases settings (.dropTlbEntry page frame) ↔
      Balanced (tlb.dropFrom page frame (List.finRange n)).2 := by
    simp [Releases, call, dropTlbEntry]
  rw [hreleases]
  cases n with
  | zero =>
      constructor
      · intro _ i
        exact i.elim0
      · intro _
        exact show Balanced [] by decide
  | succ m =>
      rw [List.finRange_succ, dropFrom]
      by_cases hfirst : tlb.Names page frame 0
      · rw [if_pos hfirst]
        constructor
        · intro _ i hi
          obtain rfl : i = 0 := Fin.ext hi
          exact hfirst
        · intro _
          exact show Balanced [.lock, .unlock] by decide
      · rw [if_neg hfirst]
        constructor
        · intro hbalanced
          exact absurd hbalanced (not_balanced_lock (tlb.dropFrom_head page frame _))
        · intro hall
          exact absurd (hall 0 rfl) hfirst

/-- Each call leaves the mutex free exactly if it meets what it needs on its first entry. -/
theorem releases_iff (settings : TlbSettings n) (action : TlbAction) (tlb : Tlb n) :
    tlb.Releases settings action ↔ MeetsFirst action tlb := by
  cases action with
  | getTlbFrame page => exact getTlbFrame_releases_iff settings tlb page
  | addTlbEntry page frame => exact addTlbEntry_releases_iff settings tlb page frame
  | dropTlbEntry page frame => exact dropTlbEntry_releases_iff settings tlb page frame
  | cleanTlb =>
      constructor
      · intro _
        trivial
      · intro _
        exact ⟨tlb.cleanTlb, rfl, show Balanced [.lock, .unlock] by decide⟩

/-- Every call of a sequence leaves the mutex free. -/
def ReleasesAll (settings : TlbSettings n) : List TlbAction → Tlb n → Prop
  | [], _ => True
  | action :: rest, tlb =>
      tlb.Releases settings action ∧
        ∀ after, tlb.call settings action = some after → ReleasesAll settings rest after.1

/-- Every call of a sequence meets what it needs. -/
def MeetsFirstAll (settings : TlbSettings n) : List TlbAction → Tlb n → Prop
  | [], _ => True
  | action :: rest, tlb =>
      MeetsFirst action tlb ∧
        ∀ after, tlb.call settings action = some after → MeetsFirstAll settings rest after.1

end Tlb

/-- From any TLB, the calls of a sequence leave the mutex free and never wait for themselves if
and only if each of them meets what it needs. -/
theorem releasesAll_iff (settings : TlbSettings n) (actions : List TlbAction) (tlb : Tlb n) :
    Tlb.ReleasesAll settings actions tlb ↔ Tlb.MeetsFirstAll settings actions tlb := by
  induction actions generalizing tlb with
  | nil => rfl
  | cons action rest ih =>
      rw [Tlb.ReleasesAll, Tlb.MeetsFirstAll, Tlb.releases_iff]
      apply and_congr_right'
      apply forall_congr'
      intro after
      exact imp_congr_right fun _ => ih after.1

/-- A lookup in a TLB of one entry that is free: the mutex stays locked. -/
theorem not_releasesAll :
    ¬ Tlb.ReleasesAll (.fifo 1) [.getTlbFrame 1, .getTlbFrame 1] (Tlb.create 1) := by
  rintro ⟨⟨after, hcall, hbalanced⟩, -⟩
  obtain rfl := Option.some.inj hcall
  exact absurd hbalanced (by decide)

end SistemasOperativos
