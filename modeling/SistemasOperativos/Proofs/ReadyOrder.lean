import SistemasOperativos.Proofs.Interrupts

/-!
# The order of the ready queue

Under SRT `put_to_ready` leaves the ready queue sorted.  In between, from its push to its sort,
the queue may be out of order; a preempted PCB is inserted in that time only, because
`handle_interruption` runs only while a caller of `put_to_ready` waits for it.
-/

namespace SistemasOperativos

/-- `put_to_ready` has pushed its PCB and not yet sorted the queue. -/
def PutToReady.unsorted : PutToReady → ℕ
  | .post | .test | .interrupt | .await | .sort => 1
  | _ => 0

theorem PutToReady.awaiting_le_unsorted (state : PutToReady) :
    state.awaiting ≤ state.unsorted := by
  cases state <;> simp [awaiting, unsorted]

theorem PutToReady.unsorted_le_inside (state : PutToReady) : state.unsorted ≤ state.inside := by
  cases state <;> simp [unsorted, inside]

namespace Kernel

variable {cfg : KernelConfig} {behaviour : MemoryBehaviour} {k k' : Kernel}
  {action : KernelAction}

/-- The ready queue is in the order of `SJF_sort`, but for a `put_to_ready` that is going to
sort it. -/
def ReadySorted (k : Kernel) : Prop :=
  k.puts PutToReady.unsorted = 0 → k.readyQ.items.Pairwise fun a b => sjfSort a b = true

theorem toReady_readySorted (hsrt : cfg.sortingAlgorithm = .srt)
    (h : k.toReady cfg = some k') (hk : k.ReadySorted) : k'.ReadySorted := by
  simp only [toReady, putToReady, hsrt] at h
  repeat' split at h
  all_goals cases h
  all_goals simp_all [ReadySorted, puts, ToReady.putting, PutToReady.unsorted,
    cfg.listSort.sorted]

theorem ioListener_readySorted {now : Word} (hsrt : cfg.sortingAlgorithm = .srt)
    (h : k.ioListener cfg now = some k') (hk : k.ReadySorted) : k'.ReadySorted := by
  simp only [ioListener, putToReady, hsrt] at h
  repeat' split at h
  all_goals cases h
  all_goals simp_all [ReadySorted, puts, IoListener.putting, PutToReady.unsorted,
    cfg.listSort.sorted]

theorem toExec_readySorted {now : Word} (h : k.toExec now = some k') (hk : k.ReadySorted) :
    k'.ReadySorted := by
  unfold toExec at h
  repeat' split at h
  all_goals cases h
  all_goals simp_all [ReadySorted, puts, PQueue.wait_eq_some, PQueue.pop_eq_some]

theorem dispatchListener_readySorted {now : Word} (h : k.dispatchListener cfg now = some k')
    (hmatched : k.dispatchThread.interrupting ≤ k.puts PutToReady.awaiting)
    (hk : k.ReadySorted) : k'.ReadySorted := by
  unfold dispatchListener at h
  cases hat : k.dispatchThread with
  | interruptPush job =>
      -- the preempted PCB enters a queue that a `put_to_ready` is going to sort
      simp only [hat, Option.some.injEq] at h
      subst h
      intro hsorted
      have hle := puts_le PutToReady.awaiting_le_unsorted k
      simp only [hat, DispatchListener.interrupting] at hmatched
      simp only [puts] at hsorted hle hmatched
      omega
  | _ =>
      simp only [hat] at h
      repeat' split at h
      all_goals cases h
      all_goals simpa [ReadySorted, puts] using hk

theorem step_readySorted (hsrt : cfg.sortingAlgorithm = .srt)
    (h : k.step cfg behaviour action = some k')
    (hmatched : k.dispatchThread.interrupting ≤ k.puts PutToReady.awaiting)
    (hk : k.ReadySorted) : k'.ReadySorted := by
  have hstep := h
  have hwrites := step_writes h
  unfold step at h
  split at h
  · cases h
  cases action with
  | toReady => exact toReady_readySorted hsrt h hk
  | ioListener now => exact ioListener_readySorted hsrt h hk
  | toExec now => exact toExec_readySorted h hk
  | dispatchListener now => exact dispatchListener_readySorted h hmatched hk
  | _ =>
      rw [ReadySorted, step_puts hstep (by simp) (by simp), hwrites.fields]
      exact hk

end Kernel

namespace System

variable {cfg : KernelConfig} {behaviour : MemoryBehaviour} {s : System}

theorem readySorted_of_reachable (hsrt : cfg.sortingAlgorithm = .srt)
    (hs : (system cfg behaviour).Reachable s) : s.kernel.ReadySorted := by
  refine hs.invariant_of (fun _ => interruptionsMatched_of_reachable) ?initial ?step
  case initial => exact fun _ => .nil
  case step =>
    intro action s s' _ hmatched hs h
    rcases step_cases h with ⟨action, k, rfl, hstep, rfl⟩ | ⟨action, c, ports, rfl, -, rfl⟩
    · refine Kernel.step_readySorted hsrt hstep ?_ hs
      have := hmatched.matched
      simp only [Kernel.interruptions] at this
      omega
    · exact hs

/-- Under SRT, whenever no thread holds `execution_mutex` the ready queue is ordered by
`(int)left_burst_estimation`; and whenever `to_exec` pops a PCB its estimate is minimal in the
queue, with no preempted PCB still on its way there. -/
theorem ready_ordered (hsrt : cfg.sortingAlgorithm = .srt)
    (hs : (system cfg behaviour).Reachable s) :
    (s.kernel.executionMutex = false → s.kernel.readyQ.items.Pairwise fun a b =>
      a.pcb.leftBurstEstimation.toInt ≤ b.pcb.leftBurstEstimation.toInt) ∧
    (s.kernel.toExecThread = .pop → ∀ job q, s.kernel.readyQ.pop = some (job, q) →
      (∀ other ∈ s.kernel.readyQ.items,
        job.pcb.leftBurstEstimation.toInt ≤ other.pcb.leftBurstEstimation.toInt) ∧
      s.kernel.interrupts = 0 ∧ (∀ other, (.interruptDispatch, other) ∉ s.kernel.fromCpu) ∧
      s.kernel.dispatchThread.interrupting = 0) := by
  have hmatched := interruptionsMatched_of_reachable hs
  have hsorted := readySorted_of_reachable hsrt hs
  have hexclusive := hmatched.exclusive
  have hunsorted := Kernel.puts_le PutToReady.unsorted_le_inside s.kernel
  constructor
  · intro hfree
    simp only [Kernel.Exclusive, hfree] at hexclusive
    simpa [sjfSort] using hsorted (by simp at hexclusive; omega)
  · intro hpop job q hq
    obtain ⟨hitems, -⟩ := PQueue.pop_eq_some.1 hq
    have hone := hmatched.le_one
    have hinside := hexclusive.le_one
    simp only [hpop, ToExec.inside, Kernel.interruptions] at hone hinside
    have hordered := hsorted (by omega)
    rw [hitems] at hordered
    refine ⟨fun other hother => ?_, by omega, fun other hother => ?_, by omega⟩
    · rw [hitems] at hother
      rcases List.mem_cons.1 hother with rfl | hrest
      · exact le_rfl
      · simpa [sjfSort] using SortBy.head_le hordered hrest
    · have : 0 < preempted s.kernel.fromCpu := Tally.tally_pos.2 ⟨_, hother, rfl⟩
      omega

/-- `to_exec` is about to pop one of two processes. -/
theorem ready_ordered_small : ∃ s, (system (.small .srt) inOrder).Reachable s ∧
    ∃ job other q, s.kernel.toExecThread = .pop ∧ s.kernel.readyQ.pop = some (job, q) ∧
      s.kernel.readyQ.items = [job, other] ∧
      job.pcb.leftBurstEstimation.toInt ≤ other.pcb.leftBurstEstimation.toInt := by
  obtain ⟨s, hs, htest⟩ := Machine.exists_reachable_of_run (system (.small .srt) inOrder)
    (onKernel (admission 0 7 [] ++ initialization 1 ++ List.replicate 7 .toReady ++
      admission 1 8 [] ++ initialization 2 ++ List.replicate 7 .toReady ++
      List.replicate 4 (.toExec 0)))
    (fun s => s.kernel.toExecThread = .pop ∧ s.kernel.readyQ.items.length = 2)
    (by decide +kernel)
  obtain ⟨hpop, hlength⟩ := by simpa using htest
  obtain ⟨job, other, hitems⟩ := List.length_eq_two.1 hlength
  have hq : s.kernel.readyQ.pop = some (job, { s.kernel.readyQ with items := [other] }) := by
    simp [PQueue.pop, hitems]
  exact ⟨s, hs, job, other, _, hpop, hq, hitems,
    ((ready_ordered rfl hs).2 hpop job _ hq).1 other (by simp [hitems])⟩

end System
end SistemasOperativos
