import SistemasOperativos.Library.Tally
import SistemasOperativos.Shared.QueueThreads

/-!
# The semaphore of a protected queue counts its elements

The number of elements is kept twice, in the list and in the semaphore, and a put and a take
change the two at different times.  What the semaphore is off by is the operations in between:
takes that will pop, and puts that will post.  A peek waits as a take does and leaves the element
in the queue, and no post follows: from then on one element more than the semaphore says is in the
queue, and one element always stays.
-/

namespace SistemasOperativos

open Tally

variable {α : Type*}

namespace QueueThreads

/-! ## The count -/

/-- The threads that are in the middle of an operation. -/
def inside (call : QueueCall) (s : QueueThreads α) : ℕ :=
  weigh (fun thread => if thread = call then 1 else 0) s.threads

/-- The semaphore and the operations in the middle account for the elements, those that were
peeked at aside. -/
def Counted (s : QueueThreads α) : Prop :=
  s.queue.sem + s.inside .take + s.inside .put + s.peeks = s.queue.items.length

theorem inside_set {s : QueueThreads α} {i : ℕ} {old : QueueCall}
    (h : s.threads[i]? = some old) (new call : QueueCall) :
    weigh (fun thread => if thread = call then 1 else 0) (s.threads.set i new) +
        (if old = call then 1 else 0) =
      s.inside call + if new = call then 1 else 0 :=
  weigh_set new h

/-- The units of the count that the operation a thread is in the middle of stands for. -/
def pending : QueueCall → ℕ
  | .put | .take => 1
  | .idle | .peek => 0

/-- The count survives the move of a thread that changes both its sides by as much. -/
theorem Counted.move {s s' : QueueThreads α} (hs : s.Counted) {i : ℕ} {old new : QueueCall}
    (hi : s.threads[i]? = some old) (hthreads : s'.threads = s.threads.set i new)
    (hbalance : s'.queue.sem + pending new + s'.peeks + s.queue.items.length =
      s.queue.sem + pending old + s.peeks + s'.queue.items.length) : s'.Counted := by
  have hput := inside_set hi new .put
  have htake := inside_set hi new .take
  have hunits : ∀ call : QueueCall, pending call =
      (if call = .put then 1 else 0) + if call = .take then 1 else 0 := by
    rintro (_ | _ | _ | _) <;> rfl
  rw [hunits, hunits] at hbalance
  unfold Counted at hs ⊢
  rw [inside, inside, hthreads]
  omega

/-- A thread that is in the middle of an operation counts. -/
theorem inside_pos {s : QueueThreads α} {call : QueueCall} (h : 0 < s.inside call) :
    ∃ i : ℕ, s.threads[i]? = some call := by
  by_contra hnone
  push Not at hnone
  have hzero : s.inside call = 0 := by
    refine weigh_eq_zero.mpr fun thread hthread => if_neg ?_
    rintro rfl
    obtain ⟨i, hi⟩ := List.mem_iff_getElem?.mp hthread
    exact hnone i hi
  omega

/-- What holds of the queue whatever is called, the count with the peeks set aside. -/
structure Kept (s : QueueThreads α) : Prop where
  counted : s.Counted
  once : (s.taken ++ s.queue.items).Perm s.put
  order : s.sorted = false → s.taken ++ s.queue.items = s.put
  nullTakes : s.nullTakes = 0

variable {listSort : ListSort α} {s s' : QueueThreads α}

theorem kept_initial : (queueThreads listSort).initial.Kept where
  counted := rfl
  once := .refl _
  order _ := rfl
  nullTakes := rfl

/-- A take that is past its wait finds an element: it is one of the elements counted. -/
theorem Counted.pop_ne_none (hs : s.Counted) {i : ℕ} (hi : s.threads[i]? = some .take) :
    s.queue.pop ≠ none := by
  intro hpop
  have hempty : s.queue.items = [] := by
    cases hitems : s.queue.items with
    | nil => rfl
    | cons elem rest => simp [PQueue.pop, hitems] at hpop
  have htake := inside_set hi .idle .take
  simp [Counted, hempty] at hs
  simp [hs] at htake

/-- Each step keeps the count and the order. -/
theorem Kept.step (hs : s.Kept) {action : QueueAction α}
    (h : QueueThreads.step listSort action s = some s') : s'.Kept := by
  cases action with
  | create =>
      obtain rfl := Option.some.inj h
      refine ⟨?_, hs.once, hs.order, hs.nullTakes⟩
      simpa [Counted, inside] using hs.counted
  | push i elem =>
      simp only [QueueThreads.step] at h
      split at h
      next hi =>
        obtain rfl := Option.some.inj h
        refine ⟨hs.counted.move hi rfl ?_, ?_, fun hsorted => ?_, hs.nullTakes⟩
        · simp [pending]
          omega
        · simpa [← List.append_assoc] using hs.once.append_right [elem]
        · simp [← List.append_assoc, hs.order hsorted]
      next => cases h
  | post i =>
      simp only [QueueThreads.step] at h
      split at h
      next hi =>
        obtain rfl := Option.some.inj h
        exact ⟨hs.counted.move hi rfl (by simp [pending]), hs.once, hs.order, hs.nullTakes⟩
      next => cases h
  | wait i =>
      simp only [QueueThreads.step] at h
      split at h
      next queue hi hwait =>
        obtain rfl := Option.some.inj h
        obtain ⟨hsem, hitems⟩ := PQueue.wait_eq_some.mp hwait
        refine ⟨hs.counted.move hi rfl ?_, hitems ▸ hs.once, hitems ▸ hs.order, hs.nullTakes⟩
        simp [pending, hsem, hitems]
      next => cases h
  | pop i =>
      simp only [QueueThreads.step] at h
      split at h
      next hi =>
        cases hpop : s.queue.pop with
        | none => exact absurd hpop (hs.counted.pop_ne_none hi)
        | some popped =>
            obtain ⟨elem, queue⟩ := popped
            rw [hpop] at h
            obtain rfl := Option.some.inj h
            obtain ⟨hitems, hsem⟩ := PQueue.pop_eq_some.mp hpop
            refine ⟨hs.counted.move hi rfl ?_, ?_, fun hsorted => ?_, hs.nullTakes⟩
            · simp [pending, hitems, hsem]
              omega
            · simpa [hitems] using hs.once
            · simpa [hitems] using hs.order hsorted
      next => cases h
  | waitPeek i =>
      simp only [QueueThreads.step] at h
      split at h
      next queue hi hwait =>
        obtain rfl := Option.some.inj h
        obtain ⟨hsem, hitems⟩ := PQueue.wait_eq_some.mp hwait
        refine ⟨hs.counted.move hi rfl ?_, hitems ▸ hs.once, hitems ▸ hs.order, hs.nullTakes⟩
        simp [pending, hsem, hitems]
        omega
      next => cases h
  | peek i =>
      simp only [QueueThreads.step] at h
      split at h
      next hi =>
        obtain rfl := Option.some.inj h
        exact ⟨hs.counted.move hi rfl (by simp [pending]), hs.once, hs.order, hs.nullTakes⟩
      next => cases h
  | size i | isEmpty i | iterate i =>
      simp only [QueueThreads.step] at h
      split at h
      next => exact Option.some.inj h ▸ hs
      next => cases h
  | sort i algorithm =>
      simp only [QueueThreads.step] at h
      split at h
      next =>
        obtain rfl := Option.some.inj h
        have hperm := listSort.perm algorithm s.queue.items
        refine ⟨?_, (hperm.append_left s.taken).trans hs.once, fun hsorted => ?_, hs.nullTakes⟩
        · simpa [Counted, inside, hperm.length_eq] using hs.counted
        · cases hsorted
      next => cases h

theorem kept_of_reachable (hs : (queueThreads listSort).Reachable s) : s.Kept :=
  hs.invariant kept_initial fun _ _ _ _ hs h => hs.step h

/-! ## Peeks -/

theorem step_peeks {action : QueueAction α} (h : step listSort action s = some s') :
    s.peeks ≤ s'.peeks := by
  cases action <;> simp only [step] at h <;> (repeat' split at h) <;> cases h <;> simp

theorem run_peeks {acts : List (QueueAction α)}
    (h : (queueThreads listSort).run acts s = some s') : s.peeks ≤ s'.peeks := by
  have hstep : ∀ action t t', s.peeks ≤ t.peeks →
      (queueThreads listSort).step action t = some t' → s.peeks ≤ t'.peeks :=
    fun _ _ _ hle ht => Nat.le_trans hle (step_peeks ht)
  exact Machine.run_invariant hstep (Nat.le_refl _) h

/-! ## Taking everything -/

/-- The threads can go on so that every element in the queue is taken. -/
def Takeable (listSort : ListSort α) (s : QueueThreads α) : Prop :=
  ∃ acts s', (queueThreads listSort).run acts s = some s' ∧ s'.queue.items = []

/-- The actions take one element. -/
def TakesOne (listSort : ListSort α) (acts : List (QueueAction α)) (s : QueueThreads α) : Prop :=
  ∃ s', (queueThreads listSort).run acts s = some s' ∧ s'.peeks = s.peeks ∧
    s'.queue.items.length + 1 = s.queue.items.length

theorem takesOne_pop {i : ℕ} (hi : s.threads[i]? = some .take) (h : s.queue.items ≠ []) :
    TakesOne listSort [.pop i] s := by
  obtain ⟨elem, rest, hitems⟩ := List.exists_cons_of_ne_nil h
  simp [TakesOne, Machine.run, queueThreads, step, hi, PQueue.pop, hitems]

theorem takesOne_wait {i : ℕ} (hi : s.threads[i]? = some .idle) (hsem : 0 < s.queue.sem)
    (h : s.queue.items ≠ []) : TakesOne listSort [.wait i, .pop i] s := by
  obtain ⟨n, hn⟩ := Nat.exists_eq_add_one.mpr hsem
  have hlt : i < s.threads.length := (List.getElem?_eq_some_iff.mp hi).1
  have hwait : (queueThreads listSort).step (.wait i) s = some { s with
      queue := { s.queue with sem := n }
      threads := s.threads.set i .take } := by
    simp [queueThreads, step, hi, PQueue.wait, hn]
  rw [TakesOne, Machine.run, hwait]
  exact takesOne_pop (by simp [hlt]) h

theorem takesOne_post {i : ℕ} (hi : s.threads[i]? = some .put) (h : s.queue.items ≠ []) :
    TakesOne listSort [.post i, .wait i, .pop i] s := by
  have hlt : i < s.threads.length := (List.getElem?_eq_some_iff.mp hi).1
  have hpost : (queueThreads listSort).step (.post i) s = some { s with
      queue := s.queue.post
      threads := s.threads.set i .idle } := by
    simp [queueThreads, step, hi]
  rw [TakesOne, Machine.run, hpost]
  exact takesOne_wait (by simp [hlt]) (Nat.succ_pos _) h

theorem takesOne_create (hsem : 0 < s.queue.sem) (h : s.queue.items ≠ []) :
    TakesOne listSort [.create, .wait s.threads.length, .pop s.threads.length] s := by
  show TakesOne listSort [.wait s.threads.length, .pop s.threads.length]
    { s with threads := s.threads ++ [.idle] }
  exact takesOne_wait (by simp) hsem h

/-- With a count that is exact the threads can go on to take one element: one that is past its
wait pops, one that has pushed posts and takes, or the semaphore lets a new one in. -/
theorem exists_takesOne (hs : s.Counted) (hpeeks : s.peeks = 0) (h : s.queue.items ≠ []) :
    ∃ acts, TakesOne listSort acts s := by
  have hlength := List.length_pos_iff.mpr h
  unfold Counted at hs
  by_cases htake : 0 < s.inside .take
  · obtain ⟨i, hi⟩ := inside_pos htake
    exact ⟨_, takesOne_pop hi h⟩
  by_cases hput : 0 < s.inside .put
  · obtain ⟨i, hi⟩ := inside_pos hput
    exact ⟨_, takesOne_post hi h⟩
  · exact ⟨_, takesOne_create (by omega) h⟩

/-- With a count that is exact every element can be taken, by induction on their number. -/
theorem takeable_of_kept (hs : s.Kept) (hpeeks : s.peeks = 0) : s.Takeable listSort := by
  induction hlength : s.queue.items.length generalizing s with
  | zero => exact ⟨[], s, rfl, List.length_eq_zero_iff.mp hlength⟩
  | succ n ih =>
      have hne : s.queue.items ≠ [] := fun hnil => by simp [hnil] at hlength
      obtain ⟨acts, t, hrun, htpeeks, htlength⟩ := exists_takesOne hs.counted hpeeks hne
      have ht := Machine.run_invariant (fun _ _ _ hs h => hs.step h) hs hrun
      obtain ⟨more, s', hmore, hempty⟩ := ih ht (by omega) (by omega)
      exact ⟨acts ++ more, s', by rw [Machine.run_append, hrun]; exact hmore, hempty⟩

/-- An element that was peeked at stays. -/
theorem not_takeable (hs : (queueThreads listSort).Reachable s) (hpeeks : 0 < s.peeks) :
    ¬ s.Takeable listSort := by
  rintro ⟨acts, s', hrun, hempty⟩
  have hcounted := (kept_of_reachable (Machine.reachable_run hs hrun)).counted
  have hle := run_peeks hrun
  simp only [Counted, hempty, List.length_nil] at hcounted
  omega

/-! ## Soundness -/

/-- The semaphore and the operations in the middle account for the elements; no take has popped
an empty queue; no element has been taken more often than it was put; every element can be taken;
and as long as the queue is not sorted the elements come out in the order they were put in. -/
structure Sound (listSort : ListSort α) (s : QueueThreads α) : Prop where
  counted : s.queue.sem + s.inside .take + s.inside .put = s.queue.items.length
  nullTakes : s.nullTakes = 0
  once : (s.taken ++ s.queue.items).Perm s.put
  takeable : s.Takeable listSort
  order : s.sorted = false → s.taken ++ s.queue.items = s.put

/-- In every interleaving the queue is sound exactly as long as no peek has got past its wait. -/
theorem sound_iff (hs : (queueThreads listSort).Reachable s) :
    s.Sound listSort ↔ s.peeks = 0 := by
  have hkept := kept_of_reachable hs
  have hcounted := hkept.counted
  unfold Counted at hcounted
  constructor
  · intro hsound
    have := hsound.counted
    omega
  · intro hpeeks
    exact {
      counted := by omega
      nullTakes := hkept.nullTakes
      once := hkept.once
      takeable := takeable_of_kept hkept hpeeks
      order := hkept.order }

/-- A thread that has pushed and not posted. -/
theorem sound_small : Sound .merge
    ({ queue := { items := [5], sem := 0 }, threads := [.put], put := [5] } : QueueThreads ℕ) := by
  have hrun : (queueThreads .merge).run [.create, .push 0 5] {} =
    some { queue := { items := [5], sem := 0 }, threads := [.put], put := [5] } := rfl
  exact (sound_iff (Machine.reachable_run .initial hrun)).mpr rfl

/-- One element is put and peeked at: the semaphore is at zero and the element in the queue. -/
theorem not_sound_of_peek :
    ∃ s : QueueThreads ℕ, (queueThreads .merge).Reachable s ∧ ¬ s.Sound .merge := by
  obtain ⟨s, hs, htest⟩ := (queueThreads (ListSort.merge (α := ℕ))).exists_reachable_of_run
    [.create, .push 0 5, .post 0, .waitPeek 0, .peek 0]
    (fun s => s.queue.sem + s.inside .take + s.inside .put ≠ s.queue.items.length) (by decide)
  exact ⟨s, hs, fun hsound => of_decide_eq_true htest hsound.counted⟩

end QueueThreads

end SistemasOperativos
