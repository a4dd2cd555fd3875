import SistemasOperativos.Proofs.Admission
import SistemasOperativos.Proofs.Evictions
import Mathlib.Data.List.Range
import Mathlib.Data.List.Perm.Subperm

/-!
# Where the clock hands are

The hand of a frame list goes back to the first entry when it reaches the number of frames in the
memory, not the length of the list.  As long as a list is as long as the memory has frames, or the
page that goes is found at or after the hand and before the last entry, the hand stays in the list.
-/

namespace SistemasOperativos.Memory

variable {Swap : Type} {cfg : MemoryConfig} {host : Host} {store : SwapStore Swap}
  {m m' : Memory Swap} {k : ℕ} {process : ProcessFrame} {checkModified : Bool} {new : PageId}
  {newPage : PageEntry} {pid : Word}

/-! ## The hands read -/

/-- The hands with which the iterations of `two_clock_turns` that are left call `list_get`, each
with its turn. -/
def handsRead (cfg : MemoryConfig) (host : Host) (store : SwapStore Swap) (k : ℕ)
    (checkModified : Bool) (new : PageId) (newPage : PageEntry) (pid : Word) :
    List ℕ → Memory Swap → List (ℕ × ℕ)
  | [], _ => []
  | j :: rest, m =>
      match m.processesFrames[k]? with
      | none => []
      | some process =>
          (j, process.clockHand) ::
            match m.clockVisit cfg host store k checkModified new newPage pid j with
            | some (m, none) => handsRead cfg host store k checkModified new newPage pid rest m
            | _ => []

/-- The hands that `two_clock_turns` reads. -/
def scanRead (cfg : MemoryConfig) (host : Host) (store : SwapStore Swap) (k : ℕ)
    (checkModified : Bool) (new : PageId) (newPage : PageEntry) (pid : Word) (m : Memory Swap) :
    List (ℕ × ℕ) :=
  m.handsRead cfg host store k checkModified new newPage pid
    (List.replicate cfg.framesPerProcess 0 ++ List.replicate cfg.framesPerProcess 1)

/-- The hands that `replace_algorithm` reads, in each of its calls of `two_clock_turns`. -/
def scansRead (cfg : MemoryConfig) (host : Host) (store : SwapStore Swap) (k : ℕ) (new : PageId)
    (newPage : PageEntry) (pid : Word) (m : Memory Swap) : List (List (ℕ × ℕ)) :=
  match cfg.replaceAlgorithm with
  | .clock => [m.scanRead cfg host store k false new newPage pid]
  | .clockM =>
      m.scanRead cfg host store k true new newPage pid ::
        match m.twoClockTurns cfg host store k true new newPage pid with
        | none => []
        | some (m, frame) =>
            if frame ≠ -1 then [] else [m.scanRead cfg host store k true new newPage pid]

/-- The hands read in turn `j`. -/
def turnHands (j : ℕ) (scan : List (ℕ × ℕ)) : List ℕ :=
  (scan.filter fun visit => visit.1 = j).map Prod.snd

/-- Every hand that a run of `two_clock_turns` reads is in a list of `n` entries, and no turn reads
an entry twice; a whole turn reads each of them. -/
structure ScanSound (n : ℕ) (scan : List (ℕ × ℕ)) : Prop where
  inside : ∀ visit ∈ scan, visit.2 < n
  once : ∀ j, (turnHands j scan).Nodup
  whole : ∀ j, (turnHands j scan).length = n → (turnHands j scan).Perm (List.range n)

/-- Different hands in a list of `n` entries are all of them if they are `n`. -/
theorem ScanSound.mk' {n : ℕ} {scan : List (ℕ × ℕ)} (hinside : ∀ visit ∈ scan, visit.2 < n)
    (honce : ∀ j, (turnHands j scan).Nodup) : ScanSound n scan := by
  refine ⟨hinside, honce, fun j hlength => ?_⟩
  have hsubset : turnHands j scan ⊆ List.range n := by
    intro hand hmem
    obtain ⟨visit, hvisit, rfl⟩ := List.mem_map.1 hmem
    exact List.mem_range.2 (hinside visit (List.mem_of_mem_filter hvisit))
  refine (List.subperm_of_subset (honce j) hsubset).perm_of_length_le ?_
  rw [List.length_range, hlength]

/-! ## One iteration -/

/-- The page in an entry of a frame list. -/
def pageIn (m : Memory Swap) (entry : FrameEntry) : Option PageEntry :=
  entry.pageData >>= m.page?

/-- An iteration either goes on past a page that stays, or replaces one and returns; either way the
hand moves on, and the frames of the lists are what they were. -/
theorem clockVisit_cases {j : ℕ} {frame : Option ℤ}
    (hprocess : m.processesFrames[k]? = some process)
    (h : m.clockVisit cfg host store k checkModified new newPage pid j = some (m', frame)) :
    (∃ entry page ids, process.frames[process.clockHand]? = some entry ∧
      m.pageIn entry = some page ∧ clockVerdict checkModified j page ≠ .replace ∧ frame = none ∧
      m' = (m.clearUsed ids).setClockHand k (incrementClockHand cfg process.clockHand)) ∨
    (∃ entry page, ∃ m₁ : Memory Swap, process.frames[process.clockHand]? = some entry ∧
      m.pageIn entry = some page ∧ frame = some entry.frame ∧ m₁.frameNumbers = m.frameNumbers ∧
      m' = m₁.setClockHand k (incrementClockHand cfg process.clockHand)) := by
  unfold clockVisit at h
  simp only [hprocess] at h
  split at h
  · cases h
  rename_i entry hentry
  split at h
  · cases h
  rename_i old hold
  split at h
  · cases h
  rename_i page hpage
  have hin : m.pageIn entry = some page := by
    simp [pageIn, hold, hpage]
  split at h
  · split at h <;> cases h
    rename_i replaced hreplace
    have hadvance : (m.replace cfg host store k process.clockHand entry.frame old page new newPage
        pid).map (advanceClockHand cfg k) = _ := replace_advanceClockHand hprocess
    rw [hreplace, Option.map_some, Option.map_some, Option.some.injEq] at hadvance
    exact .inr ⟨entry, page, replaced, hentry, hin, rfl,
      congrArg Prod.snd (replace_frameState hreplace), hadvance⟩
  · rename_i hverdict
    cases h
    refine .inl ⟨entry, page, [old], hentry, hin, by simp [hverdict], rfl, ?_⟩
    exact advanceClockHand_eq (m := m.clearUsed [old]) hprocess
  · rename_i hverdict
    cases h
    exact .inl ⟨entry, page, [], hentry, hin, by simp [hverdict], rfl, advanceClockHand_eq hprocess⟩

theorem clearUsed_processesFrames (ids : List PageId) :
    (m.clearUsed ids).processesFrames = m.processesFrames := by
  induction ids generalizing m with
  | nil => rfl
  | cons id ids ih => exact ih

/-- After the iteration goes on the list is the same, but for its hand. -/
theorem list_pass (hprocess : m.processesFrames[k]? = some process) (ids : List PageId)
    (hand : ℕ) : ((m.clearUsed ids).setClockHand k hand).processesFrames[k]? =
      some { process with clockHand := hand } := by
  simp [setClockHand, clearUsed_processesFrames, hprocess]

/-- After the iteration replaces a page the list has the frames it had. -/
theorem list_replaced {m₁ : Memory Swap} (hprocess : m.processesFrames[k]? = some process)
    (hnumbers : m₁.frameNumbers = m.frameNumbers) (hand : ℕ) :
    ∃ process', (m₁.setClockHand k hand).processesFrames[k]? = some process' ∧
      process'.clockHand = hand ∧ process'.frames.length = process.frames.length ∧
      process'.frames.map FrameEntry.frame = process.frames.map FrameEntry.frame := by
  have hlist := congrArg (·[k]?) hnumbers
  simp only [frameNumbers, List.getElem?_map, hprocess, Option.map_some,
    Option.map_eq_some_iff] at hlist
  obtain ⟨process₁, hprocess₁, hframes⟩ := hlist
  refine ⟨{ process₁ with clockHand := hand }, ?_, rfl, ?_, hframes⟩
  · simp [setClockHand, hprocess₁]
  · simpa using congrArg List.length hframes

theorem pageIn_pass (ids : List PageId) (hand : ℕ) (entry : FrameEntry) :
    ((m.clearUsed ids).setClockHand k hand).pageIn entry =
      (m.pageIn entry).map fun page =>
        if ∃ id ∈ ids, entry.pageData = some id then { page with used := false } else page := by
  cases hdata : entry.pageData with
  | none => simp [pageIn, hdata]
  | some id => simp [pageIn, hdata, clearUsed_page?]

/-- A page that the first turn takes is one that it takes with its use bit cleared. -/
theorem clockVerdict_clear {page : PageEntry} (h : clockVerdict checkModified 0 page = .replace)
    (cleared : Prop) [Decidable cleared] :
    clockVerdict checkModified 0 (if cleared then { page with used := false } else page) =
      .replace := by
  split
  · cases checkModified <;> cases hmodified : page.modified <;>
      simp_all [clockVerdict]
  · exact h

/-! ## A first turn that ends before the list does -/

/-- The first turn, from the hand on, comes to an entry without a page, where the module dies, or
to one before the last whose page it takes. -/
def FirstTurnEnds (checkModified : Bool) (m : Memory Swap) (process : ProcessFrame) : Prop :=
  ∃ i entry, process.clockHand ≤ i ∧ process.frames[i]? = some entry ∧
    (m.pageIn entry = none ∨
      i + 1 < process.frames.length ∧
        ∃ page, m.pageIn entry = some page ∧ clockVerdict checkModified 0 page = .replace)

/-- The hand of frame list `k` is in the list. -/
def HandIn (k : ℕ) (m : Memory Swap) : Prop :=
  ∃ process, m.processesFrames[k]? = some process ∧ process.clockHand < process.frames.length

/-- After a page is replaced its frame is told, and a hand that is set in the list is in it. -/
theorem handIn_replaced {m₁ : Memory Swap} (hprocess : m.processesFrames[k]? = some process)
    (hassigned : ∀ entry ∈ process.frames, entry.assigned = true) {i : ℕ} {entry : FrameEntry}
    (hentry : process.frames[i]? = some entry) (hnumbers : m₁.frameNumbers = m.frameNumbers)
    {hand : ℕ} (hhand : hand < process.frames.length) :
    entry.frame ≠ -1 ∧ HandIn k (m₁.setClockHand k hand) := by
  constructor
  · simpa [FrameEntry.assigned] using hassigned entry (List.mem_of_getElem? hentry)
  · obtain ⟨process', hprocess', hclock, hframes, -⟩ := list_replaced hprocess hnumbers hand
    exact ⟨process', hprocess', by rw [hclock, hframes]; exact hhand⟩

/-- The hand goes forward, at most to the entry where the first turn ends. -/
theorem handsRead_ahead (host : Host) (store : SwapStore Swap) (new : PageId)
    (newPage : PageEntry) (pid : Word) (hprocess : m.processesFrames[k]? = some process)
    (hassigned : ∀ entry ∈ process.frames, entry.assigned = true)
    (hlength : process.frames.length ≤ cfg.framesInMemory) {d c : ℕ} (hd : d < c)
    {entry : FrameEntry} (hentry : process.frames[process.clockHand + d]? = some entry)
    (hends : m.pageIn entry = none ∨ process.clockHand + d + 1 < process.frames.length ∧
      ∃ page, m.pageIn entry = some page ∧ clockVerdict checkModified 0 page = .replace)
    (rest : List ℕ) :
    (∃ count ≤ d + 1, m.handsRead cfg host store k checkModified new newPage pid
        (List.replicate c 0 ++ rest) =
          (List.range' process.clockHand count).map (Prod.mk 0)) ∧
      ∀ m' frame, m.clockTurns cfg host store k checkModified new newPage pid
        (List.replicate c 0 ++ rest) = some (m', frame) → frame ≠ -1 ∧ HandIn k m' := by
  induction c generalizing m process d with
  | zero => omega
  | succ c ih =>
      have hlt := (List.getElem?_eq_some_iff.1 hentry).1
      have hhand : process.clockHand + 1 < process.frames.length →
          incrementClockHand cfg process.clockHand = process.clockHand + 1 := by
        intro hnext
        rw [incrementClockHand, if_neg (by omega)]
      rw [List.replicate_succ, List.cons_append, handsRead, clockTurns]
      simp only [hprocess]
      cases hvisit : m.clockVisit cfg host store k checkModified new newPage pid 0 with
      | none => exact ⟨⟨1, by omega, rfl⟩, by simp⟩
      | some visited =>
          obtain ⟨m₁, frame⟩ := visited
          rcases clockVisit_cases hprocess hvisit with
            ⟨entry', page, ids, hentry', hpage, hverdict, rfl, rfl⟩ |
            ⟨entry', page, m₂, hentry', hpage, rfl, hnumbers, rfl⟩
          · cases d with
            | zero =>
                obtain rfl := Option.some.inj (hentry.symm.trans hentry')
                rcases hends with hnone | ⟨-, page', hpage', htaken⟩
                · simp [hnone] at hpage
                · obtain rfl := Option.some.inj (hpage.symm.trans hpage')
                  exact absurd htaken hverdict
            | succ d =>
                rw [hhand (by omega)]
                have hprocess₁ := list_pass hprocess ids (process.clockHand + 1)
                have hplace : process.clockHand + 1 + d = process.clockHand + (d + 1) := by omega
                have hends₁ : ((m.clearUsed ids).setClockHand k (process.clockHand + 1)).pageIn
                      entry = none ∨
                    process.clockHand + 1 + d + 1 < process.frames.length ∧
                      ∃ page, ((m.clearUsed ids).setClockHand k (process.clockHand + 1)).pageIn
                        entry = some page ∧ clockVerdict checkModified 0 page = .replace := by
                  rw [pageIn_pass, hplace]
                  rcases hends with hnone | ⟨hbefore, page', hpage', htaken⟩
                  · exact .inl (by rw [hnone, Option.map_none])
                  · exact .inr ⟨hbefore, _, by rw [hpage', Option.map_some],
                      clockVerdict_clear htaken _⟩
                obtain ⟨⟨count, hcount, hread⟩, hresult⟩ :=
                  ih hprocess₁ hassigned hlength (by omega) (hplace ▸ hentry) hends₁
                refine ⟨⟨count + 1, by omega, ?_⟩, hresult⟩
                simp only at hread ⊢
                rw [hread, List.range'_succ, List.map_cons]
          · refine ⟨⟨1, by omega, rfl⟩, ?_⟩
            rintro m' frame heq
            cases heq
            have hnext : process.clockHand + 1 < process.frames.length := by
              cases d with
              | zero =>
                  obtain rfl := Option.some.inj (hentry.symm.trans hentry')
                  rcases hends with hnone | ⟨hnext, -⟩
                  · simp [hnone] at hpage
                  · exact hnext
              | succ d => omega
            exact handIn_replaced hprocess hassigned hentry' hnumbers (hhand hnext ▸ hnext)

/-! ## A list as long as the memory has frames -/

/-- The hands of `count` iterations from `hand` on, in a list of `n` entries that the hand goes
round. -/
def handsFrom (n hand count : ℕ) : List ℕ :=
  (List.range count).map fun t => (hand + t) % n

theorem handsFrom_succ {n hand : ℕ} (hhand : hand < n) (count : ℕ) :
    handsFrom n hand (count + 1) = hand :: handsFrom n ((hand + 1) % n) count := by
  rw [handsFrom, handsFrom, List.range_succ_eq_map, List.map_cons, Nat.add_zero,
    Nat.mod_eq_of_lt hhand, List.map_map]
  refine congrArg (hand :: ·) (List.map_congr_left fun t _ => ?_)
  rw [Function.comp_apply, Nat.mod_add_mod, Nat.succ_eq_add_one, Nat.add_assoc, Nat.add_comm 1 t]

theorem handsFrom_lt {n hand count : ℕ} (hn : 0 < n) : ∀ i ∈ handsFrom n hand count, i < n := by
  intro i hi
  obtain ⟨t, -, rfl⟩ := List.mem_map.1 hi
  exact Nat.mod_lt _ hn

/-- The hand goes round once before it comes to an entry again. -/
theorem handsFrom_nodup {n hand count : ℕ} (hcount : count ≤ n) :
    (handsFrom n hand count).Nodup := by
  refine List.Nodup.map_on (fun t ht t' ht' heq => ?_) List.nodup_range
  rw [List.mem_range] at ht ht'
  have hmod : t ≡ t' [MOD n] := Nat.ModEq.add_left_cancel' hand heq
  exact Nat.ModEq.eq_of_lt_of_lt hmod (by omega) (by omega)

/-- The iterations of one turn end in it, or leave the hand where it goes on in the next. -/
theorem handsRead_block (host : Host) (store : SwapStore Swap) (checkModified : Bool)
    (new : PageId) (newPage : PageEntry) (pid : Word)
    (hprocess : m.processesFrames[k]? = some process)
    (hassigned : ∀ entry ∈ process.frames, entry.assigned = true)
    (hlength : process.frames.length = cfg.framesInMemory)
    (hhand : process.clockHand < process.frames.length) (j c : ℕ) (rest : List ℕ) :
    (∃ count ≤ c, m.handsRead cfg host store k checkModified new newPage pid
        (List.replicate c j ++ rest) =
          (handsFrom process.frames.length process.clockHand count).map (Prod.mk j) ∧
      ∀ m' frame, m.clockTurns cfg host store k checkModified new newPage pid
        (List.replicate c j ++ rest) = some (m', frame) → frame ≠ -1 ∧ HandIn k m') ∨
    (∃ (m₁ : Memory Swap) (hand : ℕ), hand < process.frames.length ∧
      m₁.processesFrames[k]? = some { process with clockHand := hand } ∧
      m.handsRead cfg host store k checkModified new newPage pid (List.replicate c j ++ rest) =
        (handsFrom process.frames.length process.clockHand c).map (Prod.mk j) ++
          m₁.handsRead cfg host store k checkModified new newPage pid rest ∧
      m.clockTurns cfg host store k checkModified new newPage pid (List.replicate c j ++ rest) =
        m₁.clockTurns cfg host store k checkModified new newPage pid rest) := by
  have hpos : 0 < process.frames.length := Nat.zero_lt_of_lt hhand
  induction c generalizing m process with
  | zero => exact .inr ⟨m, process.clockHand, hhand, hprocess, rfl, rfl⟩
  | succ c ih =>
      have hnext : incrementClockHand cfg process.clockHand =
          (process.clockHand + 1) % process.frames.length := by
        rw [incrementClockHand_eq, hlength]
      have hnext_lt : (process.clockHand + 1) % process.frames.length < process.frames.length :=
        Nat.mod_lt _ hpos
      have hone : handsFrom process.frames.length process.clockHand 1 = [process.clockHand] := by
        rw [handsFrom_succ hhand]
        rfl
      rw [List.replicate_succ, List.cons_append, handsRead, clockTurns]
      simp only [hprocess]
      cases hvisit : m.clockVisit cfg host store k checkModified new newPage pid j with
      | none => exact .inl ⟨1, by omega, by rw [hone]; rfl, by simp⟩
      | some visited =>
          obtain ⟨m₁, frame⟩ := visited
          rcases clockVisit_cases hprocess hvisit with
            ⟨entry, page, ids, hentry, hpage, -, rfl, rfl⟩ |
            ⟨entry, page, m₂, hentry, hpage, rfl, hnumbers, rfl⟩
          · rw [hnext]
            have hprocess₁ := list_pass hprocess ids
              ((process.clockHand + 1) % process.frames.length)
            rcases ih hprocess₁ hassigned hlength hnext_lt hpos with
              ⟨count, hcount, hread, hresult⟩ | ⟨m₂, hand, hlt, hprocess₂, hread, hresult⟩
            · refine .inl ⟨count + 1, by omega, ?_, hresult⟩
              simp only at hread ⊢
              rw [hread, handsFrom_succ hhand, List.map_cons]
            · refine .inr ⟨m₂, hand, hlt, hprocess₂, ?_, hresult⟩
              simp only at hread ⊢
              rw [hread, handsFrom_succ hhand, List.map_cons, List.cons_append]
          · refine .inl ⟨1, by omega, by rw [hone]; rfl, ?_⟩
            rintro m' frame heq
            cases heq
            exact handIn_replaced hprocess hassigned hentry hnumbers (hnext ▸ hnext_lt)

/-! ## One run of `two_clock_turns` -/

theorem turnHands_append (j : ℕ) (scan scan' : List (ℕ × ℕ)) :
    turnHands j (scan ++ scan') = turnHands j scan ++ turnHands j scan' := by
  simp [turnHands]

theorem turnHands_map (j j' : ℕ) (hands : List ℕ) :
    turnHands j (hands.map (Prod.mk j')) = if j' = j then hands else [] := by
  induction hands with
  | nil => simp [turnHands]
  | cons hand hands ih =>
      simp only [turnHands, List.map_cons, List.filter_cons] at ih ⊢
      by_cases hj : j' = j <;> simp_all

/-- A scan of two turns, each of them of different hands. -/
theorem scanSound_of_turns {n : ℕ} {first second : List ℕ} (hfirst : ∀ hand ∈ first, hand < n)
    (hsecond : ∀ hand ∈ second, hand < n) (hfirst_nodup : first.Nodup)
    (hsecond_nodup : second.Nodup) :
    ScanSound n (first.map (Prod.mk 0) ++ second.map (Prod.mk 1)) := by
  refine .mk' (fun visit hvisit => ?_) fun j => ?_
  · rcases List.mem_append.1 hvisit with hmem | hmem
    · obtain ⟨hand, hhand, rfl⟩ := List.mem_map.1 hmem
      exact hfirst hand hhand
    · obtain ⟨hand, hhand, rfl⟩ := List.mem_map.1 hmem
      exact hsecond hand hhand
  · rw [turnHands_append, turnHands_map, turnHands_map]
    by_cases hzero : 0 = j
    · subst hzero
      simpa using hfirst_nodup
    · by_cases hone : 1 = j <;> simp [hzero, hone, hsecond_nodup]

/-- In a list as long as the memory has frames a run of `two_clock_turns` reads every entry once a
turn, and leaves the hand in the list. -/
theorem scanRead_whole (host : Host) (store : SwapStore Swap) (checkModified : Bool)
    (new : PageId) (newPage : PageEntry) (pid : Word)
    (hprocess : m.processesFrames[k]? = some process)
    (hassigned : ∀ entry ∈ process.frames, entry.assigned = true)
    (hlength : process.frames.length = cfg.framesInMemory)
    (hfull : process.frames.length = cfg.framesPerProcess)
    (hhand : process.clockHand < process.frames.length) :
    ScanSound process.frames.length (m.scanRead cfg host store k checkModified new newPage pid) ∧
      ∀ m' frame, m.twoClockTurns cfg host store k checkModified new newPage pid =
        some (m', frame) → HandIn k m' ∧ (frame = -1 → ∃ hand < process.frames.length,
          m'.processesFrames[k]? = some { process with clockHand := hand }) := by
  have hpos : 0 < process.frames.length := Nat.zero_lt_of_lt hhand
  obtain ⟨n, hn⟩ : ∃ n, n = process.frames.length := ⟨_, rfl⟩
  have hsound : ∀ first second hand hand', first ≤ n → second ≤ n →
      ScanSound n ((handsFrom n hand first).map (Prod.mk 0) ++
        (handsFrom n hand' second).map (Prod.mk 1)) := by
    intro first second hand hand' hfirst hsecond
    exact scanSound_of_turns (handsFrom_lt (hn ▸ hpos)) (handsFrom_lt (hn ▸ hpos))
      (handsFrom_nodup hfirst) (handsFrom_nodup hsecond)
  rw [scanRead, twoClockTurns, ← hfull]
  rcases handsRead_block host store checkModified new newPage pid hprocess hassigned hlength hhand
    0 process.frames.length (List.replicate process.frames.length 1) with
    ⟨count, hcount, hread, hresult⟩ | ⟨m₁, hand, hlt, hprocess₁, hread, hresult⟩
  · refine ⟨?_, fun m' frame heq => ?_⟩
    · rw [hread, ← hn]
      simpa [handsFrom] using hsound count 0 process.clockHand 0 (hn ▸ hcount) (Nat.zero_le _)
    · obtain ⟨hframe, hin⟩ := hresult m' frame heq
      exact ⟨hin, fun heq => absurd heq hframe⟩
  · rw [hread, hresult]
    have hsecond := handsRead_block host store checkModified new newPage pid hprocess₁ hassigned
      hlength hlt 1 process.frames.length []
    rw [List.append_nil] at hsecond
    rcases hsecond with ⟨count, hcount, hread₁, hresult₁⟩ |
      ⟨m₂, hand₂, hlt₂, hprocess₂, hread₁, hresult₁⟩
    · refine ⟨?_, fun m' frame heq => ?_⟩
      · rw [hread₁]
        simp only [← hn]
        exact hsound n count process.clockHand hand (Nat.le_refl n) (hn ▸ hcount)
      · obtain ⟨hframe, hin⟩ := hresult₁ m' frame heq
        exact ⟨hin, fun heq => absurd heq hframe⟩
    · refine ⟨?_, fun m' frame heq => ?_⟩
      · rw [hread₁, handsRead, List.append_nil]
        simp only [← hn]
        exact hsound n n process.clockHand hand (Nat.le_refl n) (Nat.le_refl n)
      · rw [hresult₁, clockTurns] at heq
        cases heq
        exact ⟨⟨_, hprocess₂, hlt₂⟩, fun _ => ⟨hand₂, hlt₂, hprocess₂⟩⟩

/-- Where the first turn ends in time a run of `two_clock_turns` reads the entries up to there, and
leaves the hand in the list. -/
theorem scanRead_ends (host : Host) (store : SwapStore Swap) (new : PageId)
    (newPage : PageEntry) (pid : Word) (hprocess : m.processesFrames[k]? = some process)
    (hassigned : ∀ entry ∈ process.frames, entry.assigned = true)
    (hlength : process.frames.length ≤ cfg.framesInMemory)
    (hfull : process.frames.length = cfg.framesPerProcess)
    (hends : m.FirstTurnEnds checkModified process) :
    ScanSound process.frames.length (m.scanRead cfg host store k checkModified new newPage pid) ∧
      ∀ m' frame, m.twoClockTurns cfg host store k checkModified new newPage pid =
        some (m', frame) → frame ≠ -1 ∧ HandIn k m' := by
  obtain ⟨i, entry, hi, hentry, hends⟩ := hends
  obtain ⟨d, rfl⟩ := Nat.exists_eq_add_of_le hi
  have hlt := (List.getElem?_eq_some_iff.1 hentry).1
  obtain ⟨⟨count, hcount, hread⟩, hresult⟩ := handsRead_ahead host store new newPage pid hprocess
    hassigned hlength (c := process.frames.length) (by omega) hentry hends
    (List.replicate process.frames.length 1)
  rw [scanRead, twoClockTurns, ← hfull]
  refine ⟨?_, hresult⟩
  have hinside : ∀ hand ∈ List.range' process.clockHand count, hand < process.frames.length := by
    intro hand hmem
    rw [List.mem_range'_1] at hmem
    omega
  have hnone : ∀ hand ∈ ([] : List ℕ), hand < process.frames.length := by simp
  have hsound := scanSound_of_turns hinside hnone List.nodup_range' List.nodup_nil
  rw [hread]
  simpa using hsound

/-! ## Replacements -/

/-- A page replacement: the frame list, the page that comes, and the pid of the process. -/
structure Replacement where
  list : ℕ
  new : PageId
  pid : Word

/-- `replace_algorithm`, as `get_frame_number` calls it when no frame of the process is free. -/
def replacePage (cfg : MemoryConfig) (host : Host) (store : SwapStore Swap) (r : Replacement)
    (m : Memory Swap) : Option (Memory Swap) :=
  match m.page? r.new, m.processesFrames[r.list]? with
  | some newPage, some process =>
      if hasFreeFrame cfg process then none
      else (m.replaceAlgorithm cfg host store r.list r.new newPage r.pid).map Prod.fst
  | _, _ => none

/-- Page replacements of any processes, from any state on. -/
def replacements (cfg : MemoryConfig) (host : Host) (store : SwapStore Swap) (m : Memory Swap) :
    Machine (Memory Swap) Replacement where
  initial := m
  step r m := m.replacePage cfg host store r

/-- No list is longer than `assign_process_frames` makes them, and where pages are replaced the hand
is in the list. -/
def HandsPlaced (cfg : MemoryConfig) (m : Memory Swap) : Prop :=
  ∀ process ∈ m.processesFrames, process.frames.length ≤ cfg.framesPerProcess ∧
    (hasFreeFrame cfg process = false → process.clockHand < process.frames.length)

/-- Every hand that the replacement reads is in the list, each once a turn, and so is the hand it
leaves. -/
structure HandSound (cfg : MemoryConfig) (host : Host) (store : SwapStore Swap) (r : Replacement)
    (newPage : PageEntry) (process : ProcessFrame) (m : Memory Swap) : Prop where
  scans : ∀ scan ∈ m.scansRead cfg host store r.list r.new newPage r.pid,
    ScanSound process.frames.length scan
  after : ∀ m' frame, m.replaceAlgorithm cfg host store r.list r.new newPage r.pid =
    some (m', frame) → HandIn r.list m'

/-- The list of the replacement is as long as the memory has frames, or the first turn ends in
time. -/
def StaysInside (cfg : MemoryConfig) (r : Replacement) (m : Memory Swap) : Prop :=
  ∀ process, m.processesFrames[r.list]? = some process →
    process.frames.length = cfg.framesInMemory ∨ m.FirstTurnEnds cfg.enhanced process

/-- A list without a free frame has all the frames a process may have. -/
theorem HandsPlaced.full (hm : m.HandsPlaced cfg) (hprocess : m.processesFrames[k]? = some process)
    (hfree : hasFreeFrame cfg process = false) :
    process.frames.length = cfg.framesPerProcess ∧
      ∀ entry ∈ process.frames, entry.assigned = true :=
  assigned_of_full (hm process (List.mem_of_getElem? hprocess)).1 hfree

/-- A replacement is its first run of `two_clock_turns`, and where that finds nothing another. -/
theorem handSound_of_turns {r : Replacement} {newPage : PageEntry}
    (hsound : ScanSound process.frames.length
      (m.scanRead cfg host store r.list cfg.enhanced r.new newPage r.pid))
    (hresult : ∀ m₁ frame, m.twoClockTurns cfg host store r.list cfg.enhanced r.new newPage r.pid =
      some (m₁, frame) → HandIn r.list m₁ ∧ (frame = -1 →
        ScanSound process.frames.length
          (m₁.scanRead cfg host store r.list cfg.enhanced r.new newPage r.pid) ∧
        ∀ m' frame', m₁.twoClockTurns cfg host store r.list cfg.enhanced r.new newPage r.pid =
          some (m', frame') → HandIn r.list m')) :
    m.HandSound cfg host store r newPage process := by
  cases halgorithm : cfg.replaceAlgorithm with
  | clock =>
      have henhanced : cfg.enhanced = false := by simp [MemoryConfig.enhanced, halgorithm]
      rw [henhanced] at hsound hresult
      refine ⟨by simpa [scansRead, halgorithm] using hsound, fun m' frame heq => ?_⟩
      simp only [replaceAlgorithm, halgorithm] at heq
      exact (hresult m' frame heq).1
  | clockM =>
      have henhanced : cfg.enhanced = true := by simp [MemoryConfig.enhanced, halgorithm]
      rw [henhanced] at hsound hresult
      cases hfirst : m.twoClockTurns cfg host store r.list true r.new newPage r.pid with
      | none =>
          refine ⟨by simpa [scansRead, halgorithm, hfirst] using hsound, ?_⟩
          simp [replaceAlgorithm, halgorithm, hfirst]
      | some result =>
          obtain ⟨m₁, frame⟩ := result
          obtain ⟨hin, hagain⟩ := hresult m₁ frame hfirst
          by_cases hframe : frame = -1
          · obtain ⟨hsound₁, hresult₁⟩ := hagain hframe
            refine ⟨by simpa [scansRead, halgorithm, hfirst, hframe] using ⟨hsound, hsound₁⟩,
              fun m' frame' heq => ?_⟩
            simp only [replaceAlgorithm, halgorithm, hfirst, hframe, ne_eq, not_true_eq_false,
              if_false] at heq
            exact hresult₁ m' frame' heq
          · refine ⟨by simpa [scansRead, halgorithm, hfirst, hframe] using hsound,
              fun m' frame' heq => ?_⟩
            simp only [replaceAlgorithm, halgorithm, hfirst, ne_eq, hframe, not_false_eq_true,
              if_true] at heq
            cases heq
            exact hin

/-- One replacement, from a hand in the list. -/
theorem handSound_of_staysInside (host : Host) (store : SwapStore Swap)
    (hle : cfg.framesPerProcess ≤ cfg.framesInMemory) (hm : m.HandsPlaced cfg) {r : Replacement}
    (hr : m.StaysInside cfg r) (newPage : PageEntry)
    (hprocess : m.processesFrames[r.list]? = some process)
    (hfree : hasFreeFrame cfg process = false) : m.HandSound cfg host store r newPage process := by
  obtain ⟨hfull, hassigned⟩ := hm.full hprocess hfree
  have hhand := (hm process (List.mem_of_getElem? hprocess)).2 hfree
  rcases hr process hprocess with hlength | hends
  · obtain ⟨hsound, hresult⟩ := scanRead_whole host store cfg.enhanced r.new newPage r.pid
      hprocess hassigned hlength hfull hhand
    refine handSound_of_turns hsound fun m₁ frame hfirst => ?_
    obtain ⟨hin, hagain⟩ := hresult m₁ frame hfirst
    refine ⟨hin, fun hframe => ?_⟩
    -- both turns are over, and the second run starts where they left the hand
    obtain ⟨hand, hlt, hprocess₁⟩ := hagain hframe
    obtain ⟨hsound₁, hresult₁⟩ := scanRead_whole host store cfg.enhanced r.new newPage r.pid
      hprocess₁ hassigned hlength hfull hlt
    exact ⟨hsound₁, fun m' frame' heq => (hresult₁ m' frame' heq).1⟩
  · obtain ⟨hsound, hresult⟩ := scanRead_ends host store r.new newPage r.pid hprocess hassigned
      (hfull.trans_le hle) hfull hends
    refine handSound_of_turns hsound fun m₁ frame hfirst => ?_
    obtain ⟨hframe, hin⟩ := hresult m₁ frame hfirst
    exact ⟨hin, fun hnone => absurd hnone hframe⟩

/-! ## The other lists -/

/-- The hands of all lists. -/
def hands (m : Memory Swap) : List ℕ :=
  m.processesFrames.map ProcessFrame.clockHand

theorem replace_hands {i : ℕ} {frame : ℤ} {old : PageId} {oldPage : PageEntry}
    (h : m.replace cfg host store k i frame old oldPage new newPage pid = some m') :
    m'.hands = m.hands := by
  unfold replace at h
  split at h
  · cases h
  rename_i evicted hevicted
  split at h <;> cases h
  rename_i loaded hloaded
  have hevict : evicted.processesFrames = m.processesFrames := by
    unfold evict at hevicted
    obtain ⟨saved, hsaved, rfl⟩ := Option.map_eq_some_iff.1 hevicted
    split at hsaved
    · obtain ⟨written, hwritten, rfl⟩ := Option.map_eq_some_iff.1 hsaved
      unfold saveSwap at hwritten
      split at hwritten <;> cases hwritten
      rfl
    · cases hsaved
      rfl
  have hlists : loaded.processesFrames = m.processesFrames :=
    (writeBytes_sameTables hloaded).processesFrames.trans hevict
  simp only [hands, modifyFrame, modifyPage, hlists]
  rw [map_modify_of_eq]
  exact fun _ => rfl

/-- An iteration on list `k` moves no other hand. -/
theorem clockVisit_hands {j i : ℕ} {frame : Option ℤ} (hi : i ≠ k)
    (h : m.clockVisit cfg host store k checkModified new newPage pid j = some (m', frame)) :
    m'.hands[i]? = m.hands[i]? := by
  have hother : ∀ m : Memory Swap, (m.advanceClockHand cfg k).hands[i]? = m.hands[i]? := by
    intro m
    simp [hands, advanceClockHand, List.getElem?_modify_ne _ _ (Ne.symm hi)]
  unfold clockVisit at h
  repeat' split at h
  all_goals cases h
  · rename_i hreplace
    rw [hother, replace_hands hreplace]
  · exact hother _
  · exact hother _

theorem clockTurns_hands {turns : List ℕ} {i : ℕ} {frame : ℤ} (hi : i ≠ k)
    (h : m.clockTurns cfg host store k checkModified new newPage pid turns = some (m', frame)) :
    m'.hands[i]? = m.hands[i]? := by
  induction turns generalizing m with
  | nil => cases h; rfl
  | cons j rest ih =>
      unfold clockTurns at h
      split at h
      · cases h
      · rename_i hvisit
        cases h
        exact clockVisit_hands hi hvisit
      · rename_i hvisit
        exact (ih h).trans (clockVisit_hands hi hvisit)

theorem replaceAlgorithm_hands {i : ℕ} {frame : ℤ} (hi : i ≠ k)
    (h : m.replaceAlgorithm cfg host store k new newPage pid = some (m', frame)) :
    m'.hands[i]? = m.hands[i]? := by
  unfold replaceAlgorithm at h
  split at h
  · exact clockTurns_hands hi h
  · split at h
    · cases h
    · rename_i hfirst
      split at h
      · cases h
        exact clockTurns_hands hi hfirst
      · exact (clockTurns_hands hi h).trans (clockTurns_hands hi hfirst)

/-! ## Runs of replacements -/

theorem replacePage_handsPlaced (hle : cfg.framesPerProcess ≤ cfg.framesInMemory)
    {r : Replacement} (hr : m.StaysInside cfg r) (hm : m.HandsPlaced cfg)
    (h : m.replacePage cfg host store r = some m') : m'.HandsPlaced cfg := by
  unfold replacePage at h
  split at h
  · rename_i newPage process _ hprocess
    split at h
    · cases h
    rename_i hfree
    obtain ⟨⟨m₁, frame⟩, hreplace, rfl⟩ := Option.map_eq_some_iff.1 h
    have hsound := handSound_of_staysInside host store hle hm hr newPage hprocess
      (by simpa using hfree)
    have hnumbers : m₁.frameNumbers = m.frameNumbers :=
      congrArg Prod.snd (replaceAlgorithm_frameState hreplace)
    intro process' hmem
    obtain ⟨i, hi⟩ := List.getElem?_of_mem hmem
    have hlist := congrArg (·[i]?) hnumbers
    simp only [frameNumbers, List.getElem?_map, hi, Option.map_some] at hlist
    obtain ⟨process₀, hprocess₀, hframes⟩ := Option.map_eq_some_iff.1 hlist.symm
    obtain ⟨hbound, hplaced⟩ := hm process₀ (List.mem_of_getElem? hprocess₀)
    have hlength : process₀.frames.length = process'.frames.length := by
      simpa using congrArg List.length hframes
    refine ⟨hlength ▸ hbound, fun hfree' => ?_⟩
    by_cases hlisted : i = r.list
    · obtain ⟨process₁, hprocess₁, hhand⟩ := hsound.after m₁ frame hreplace
      obtain rfl := Option.some.inj (hi.symm.trans (hlisted ▸ hprocess₁))
      exact hhand
    · have hhands := replaceAlgorithm_hands hlisted hreplace
      simp only [hands, List.getElem?_map, hi, hprocess₀, Option.map_some,
        Option.some.injEq] at hhands
      have hsame : hasFreeFrame cfg process₀ = hasFreeFrame cfg process' := by
        have hcount : ∀ frames : List FrameEntry, frames.countP FrameEntry.assigned =
            (frames.map FrameEntry.frame).countP fun frame => decide (frame ≠ -1) := by
          intro frames
          rw [List.countP_map]
          rfl
        rw [hasFreeFrame, hasFreeFrame, hcount, hcount, hframes]
      rw [hhands, ← hlength]
      exact hplaced (hsame.trans hfree')
  · cases h

/-- As `assign_process_frames` makes the lists: not too long, and the hand at the first entry. -/
def HandsFirst (cfg : MemoryConfig) (m : Memory Swap) : Prop :=
  ∀ process ∈ m.processesFrames,
    process.frames.length ≤ cfg.framesPerProcess ∧ process.clockHand = 0

theorem unassignProcessFrames_handsFirst (h : m.unassignProcessFrames k = some m')
    (hm : m.HandsFirst cfg) : m'.HandsFirst cfg := by
  unfold unassignProcessFrames at h
  split at h <;> cases h
  rename_i process hprocess
  intro process' hmem
  rcases List.mem_or_eq_of_mem_set hmem with hold | rfl
  · exact hm process' hold
  · simpa using hm process (List.mem_of_getElem? hprocess)

/-- In the states the memory module reaches no hand has moved, and every list is as long as the
process may have frames at most. -/
theorem handsFirst_of_reachable {swap : Swap}
    (hm : (memoryModule cfg host store swap).Reachable m) : m.HandsFirst cfg := by
  have hstart : (start cfg swap).HandsFirst cfg := by
    simp [HandsFirst, start]
  refine hm.invariant_of (fun _ => fullEmpty_of_reachable) hstart
    fun action m m' _ hfull hm h => ?_
  obtain ⟨⟨m₁, answer⟩, hhandle, rfl⟩ := Option.map_eq_some_iff.1 h
  refine handle_elim hhandle ?create ?suspend ?exit ?access (fun _ _ => hm) hm
  case create =>
    intro pid processSize _
    by_cases hpid : pid = 0
    · simpa [processNew, hpid] using hm
    · rw [HandsFirst, (processNew_frames cfg store m processSize hpid).2]
      intro process hmem
      rcases List.mem_append.1 hmem with hold | hnew
      · exact hm process hold
      · obtain rfl := List.mem_singleton.1 hnew
        simp [framesTaken]
  case suspend =>
    intro pid pt1Index processFramesIndex m' _ h
    refine processSuspend_invariant h (fun m m' id hm h => ?_) hm
    obtain ⟨released, -, hlists, hreleased⟩ := suspendEntry_frameState h
    apply unassignProcessFrames_handsFirst hreleased
    rw [HandsFirst, hlists]
    exact hm
  case exit =>
    intro pid pt1Index processFramesIndex m' _ h
    rcases processExit_eq_some h with rfl | ⟨released, hreleased, rfl⟩
    · exact hm
    · have hkept := unassignProcessFrames_handsFirst hreleased hm
      exact fun process hmem => hkept process hmem
  case access =>
    intro pid pt2Index entryIndex processFramesIndex found m' frame _ hframe
    rcases getFrameNumber_cases hframe hfull with ⟨page, -, -, rfl, -⟩ | ⟨page, -, -, rfl, -⟩ |
      ⟨page, k, process, free, i, -, -, hprocess, -, -, -, rfl, -⟩
    · exact hm
    · exact hm
    · intro process' hmem
      obtain ⟨j, hj⟩ := List.getElem?_of_mem hmem
      simp only [assignPage, modifyFrame, modifyPage, List.getElem?_modify] at hj
      obtain ⟨process₀, hprocess₀, rfl⟩ := Option.map_eq_some_iff.1 hj
      have hold := hm process₀ (List.mem_of_getElem? hprocess₀)
      split
      · simpa using hold
      · exact hold

/-- The hands of the lists are in them, in these states. -/
theorem handsPlaced_of_reachable {swap : Swap} (hpos : 1 ≤ cfg.framesPerProcess)
    (hm : (memoryModule cfg host store swap).Reachable m) : m.HandsPlaced cfg := by
  intro process hmem
  obtain ⟨hle, hhand⟩ := handsFirst_of_reachable hm process hmem
  refine ⟨hle, fun hfree => ?_⟩
  have hcount : process.frames.countP FrameEntry.assigned ≤ process.frames.length :=
    List.countP_le_length
  simp only [hasFreeFrame, decide_eq_false_iff_not] at hfree
  omega

/-- In every run of replacements of any processes, each in a list as long as the memory has frames
or ended in time by its first turn, the hands stay in the lists; and such a replacement reads
hands in its list only, each once a turn. -/
theorem hands_of_run (host : Host) (store : SwapStore Swap) {m₀ : Memory Swap}
    (hle : cfg.framesPerProcess ≤ cfg.framesInMemory) (hm₀ : m₀.HandsPlaced cfg)
    (hm : (replacements cfg host store m₀).ReachableBy (fun r m => m.StaysInside cfg r) m) :
    m.HandsPlaced cfg ∧ ∀ r newPage process, m.StaysInside cfg r →
      m.page? r.new = some newPage → m.processesFrames[r.list]? = some process →
      hasFreeFrame cfg process = false → m.HandSound cfg host store r newPage process := by
  have hplaced : m.HandsPlaced cfg :=
    hm.invariant hm₀ fun r m m' hr hm h => replacePage_handsPlaced hle hr hm h
  exact ⟨hplaced, fun r newPage process hr _ hprocess hfree =>
    handSound_of_staysInside host store hle hplaced hr newPage hprocess hfree⟩

/-- A process with all three frames of the memory, after a replacement. -/
theorem hands_of_run_three : ∃ m, threeOccupied.replacePage (.small 3) quietHost
      (pageStore (.small 3)) ⟨0, ⟨1, 1⟩, 1⟩ = some m ∧ m.hands = [1] ∧
      m.HandsPlaced (.small 3) := by
  obtain ⟨m, hm, hhands⟩ : ∃ m, threeOccupied.replacePage (.small 3) quietHost
      (pageStore (.small 3)) ⟨0, ⟨1, 1⟩, 1⟩ = some m ∧ m.hands = [1] :=
    ⟨_, rfl, by decide⟩
  have hstays : threeOccupied.StaysInside (.small 3) ⟨0, ⟨1, 1⟩, 1⟩ := by
    intro process hprocess
    cases hprocess
    exact .inl (by decide)
  have hplaced : threeOccupied.HandsPlaced (.small 3) := by
    intro process hmem
    obtain rfl := List.mem_singleton.1 hmem
    exact ⟨by decide, by decide⟩
  exact ⟨m, hm, hhands, (hands_of_run quietHost (pageStore (.small 3)) (by decide) hplaced
    (.step .initial hstays hm)).1⟩

/-- Two of the three frames, each with a page of one process. -/
def twoOccupied : Memory (Word → ℕ → Bytes) where
  memory := List.replicate 24 0
  framesBitmap := [true, true, false]
  level2Tables := [[⟨0, true, false, false, 0⟩, ⟨1, true, false, false, 1⟩],
    [⟨-1, false, false, false, 0⟩, ⟨-1, false, false, false, 1⟩]]
  processesFrames := [⟨[⟨0, some ⟨0, 0⟩⟩, ⟨1, some ⟨0, 1⟩⟩], 0⟩]
  swap _ _ := List.replicate 8 0

/-- Two replacements put the hand behind the second of two entries, and the third dies there. -/
theorem not_hands : twoOccupied.HandsPlaced (.small 2) ∧
    ∃ m, (replacements (.small 2) quietHost (pageStore (.small 2)) twoOccupied).Reachable m ∧
      m.hands = [2] ∧ ¬ m.HandsPlaced (.small 2) ∧
      m.scansRead (.small 2) quietHost (pageStore (.small 2)) 0 ⟨0, 0⟩
        ⟨0, false, false, false, 0⟩ 1 = [[(0, 2)]] ∧
      m.replacePage (.small 2) quietHost (pageStore (.small 2)) ⟨0, ⟨0, 0⟩, 1⟩ = none := by
  refine ⟨?_, ?_⟩
  · intro process hmem
    obtain rfl := List.mem_singleton.1 hmem
    exact ⟨by decide, by decide⟩
  · obtain ⟨m, hm, htest⟩ := Machine.exists_reachable_of_run
      (replacements (.small 2) quietHost (pageStore (.small 2)) twoOccupied)
      [⟨0, ⟨1, 0⟩, 1⟩, ⟨0, ⟨1, 1⟩, 1⟩]
      (fun m => m.processesFrames = [⟨[⟨0, some ⟨1, 0⟩⟩, ⟨1, some ⟨1, 1⟩⟩], 2⟩] ∧
        m.scansRead (.small 2) quietHost (pageStore (.small 2)) 0 ⟨0, 0⟩
          ⟨0, false, false, false, 0⟩ 1 = [[(0, 2)]] ∧
        (m.replacePage (.small 2) quietHost (pageStore (.small 2)) ⟨0, ⟨0, 0⟩, 1⟩).isNone)
      (by decide +kernel)
    simp only [decide_eq_true_eq, Option.isNone_iff_eq_none] at htest
    obtain ⟨hlists, hscans, hdies⟩ := htest
    refine ⟨m, hm, by rw [hands, hlists]; rfl, fun hplaced => ?_, hscans, hdies⟩
    have hhand := (hplaced _ (hlists ▸ List.mem_singleton_self _)).2 (by decide)
    exact absurd hhand (by decide)

end SistemasOperativos.Memory
