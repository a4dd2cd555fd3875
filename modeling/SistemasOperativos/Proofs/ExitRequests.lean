import SistemasOperativos.Proofs.History
import SistemasOperativos.System.Places

/-!
# The exit requests of the kernel

`exit_process` asks the memory module to release a process and then keeps its PCB in
`memory_exit_q`; nothing takes it out again.  So for each process the requests, replies and
scans under way, and the replies handled, are bounded by its occurrences in `memory_exit_q`
and in the hands of `exit_process` after the request.
-/

open Tally

namespace SistemasOperativos

/-! ## The process an exit is about -/

/-- The process whose exit the request asks for. -/
def Request.exiting : Request → Option ℕ
  | .processExit serial .. => some serial
  | _ => none

/-- The process whose exit the reply answers. -/
def Reply.exiting : Reply → Option ℕ
  | .processExitReady serial _ => some serial
  | _ => none

/-- The process whose reply the memory listener is handling. -/
def MemoryListener.exiting : MemoryListener → List ℕ
  | .exitScan serial _ | .exitAnswer serial _ | .exitPermit serial => [serial]
  | _ => []

/-- The PCB whose exit `exit_process` has requested and not yet queued. -/
def ExitProcess.requested : ExitProcess → List Job
  | .push job => [job]
  | _ => []

/-- A memory module that answers each `PROCESS_EXIT` at most once. -/
def AnswersExitsOnce (behaviour : MemoryBehaviour) : Prop :=
  ∀ requests reply rest, behaviour requests reply = some rest → ∀ t,
    tally Request.exiting (some t) rest + one Reply.exiting (some t) reply ≤
      tally Request.exiting (some t) requests

theorem Request.exiting_of_answeredBy {request : Request} {reply : Reply}
    (h : request.answeredBy reply = true) : request.exiting = reply.exiting := by
  cases request <;> cases reply <;> simp_all [answeredBy, exiting, Reply.exiting]

/-- The memory module of the repository is one. -/
theorem inOrder_answersExitsOnce : AnswersExitsOnce inOrder := by
  intro requests reply rest h t
  obtain ⟨dropped, request, rfl, -, -, hanswered⟩ := inOrder_eq_some h
  have hreply : one Reply.exiting (some t) reply = one Request.exiting (some t) request := by
    rw [one, one, Request.exiting_of_answeredBy hanswered]
  rw [tally_append, tally_cons, hreply]
  omega

namespace Kernel

variable {cfg : KernelConfig} {behaviour : MemoryBehaviour} {k k' : Kernel} {stale : ℕ → Pcb}
  {action : KernelAction}

/-! ## Requests, replies and scans -/

/-- The exits of a process that are under way or handled. -/
def exitsAnswered (k : Kernel) (t : ℕ) : ℕ :=
  tally Request.exiting (some t) k.toMemory + tally Reply.exiting (some t) k.fromMemory +
    k.memoryThread.exiting.count t + k.history.count (.exitHandled t)

/-- The occurrences of a process whose exit has been requested. -/
def exitsRequested (k : Kernel) (t : ℕ) : ℕ :=
  tally Job.serial t k.exitProcessThread.requested + tally Job.serial t k.memoryExitQ.items

/-- No process has more exits under way or handled than it has PCBs behind the request. -/
def ExitsBounded (k : Kernel) : Prop :=
  ∀ t, k.exitsAnswered t ≤ k.exitsRequested t

/-- The other threads ask for no exits. -/
theorem Asks.tally_exiting {thread : Thread} (h : Asks thread k k') (hne : thread ≠ .exitProcess)
    (t : ℕ) : tally Request.exiting (some t) k'.toMemory =
      tally Request.exiting (some t) k.toMemory := by
  obtain ⟨requests, htoMemory, hrequests⟩ := h
  rw [htoMemory, tally_append, Nat.add_eq_left]
  refine weigh_eq_zero.2 fun request hmem => one_of_ne ?_
  have := hrequests request hmem
  cases request <;> simp_all [Request.exiting]

theorem exitProcess_exitsBounded (h : k.exitProcess = some k') (hk : k.ExitsBounded) :
    k'.ExitsBounded := by
  intro t
  have := hk t
  unfold exitProcess at h
  repeat' split at h
  all_goals cases h
  all_goals simp_all [exitsAnswered, exitsRequested, ExitProcess.requested, Request.exiting, one]
  all_goals omega

theorem memoryListener_exitsBounded (h : k.memoryListener stale = some k')
    (hk : k.ExitsBounded) : k'.ExitsBounded := by
  intro t
  have := hk t
  unfold memoryListener at h
  repeat' split at h
  all_goals cases h
  all_goals simp_all [exitsAnswered, exitsRequested, MemoryListener.exiting, Reply.exiting, one,
    ExitScan.count_history_foldl, List.count_cons, setTable]
  all_goals omega

theorem memoryReplies_exitsBounded (hanswers : AnswersExitsOnce behaviour) {reply : Reply}
    (h : k.memoryReplies behaviour reply = some k') (hk : k.ExitsBounded) : k'.ExitsBounded := by
  intro t
  have := hk t
  unfold memoryReplies at h
  split at h <;> cases h
  rename_i rest hrest
  have := hanswers _ _ _ hrest t
  simp_all [exitsAnswered, exitsRequested]
  omega

theorem step_exitsBounded (hanswers : AnswersExitsOnce behaviour)
    (h : k.step cfg behaviour action = some k') (hk : k.ExitsBounded) : k'.ExitsBounded := by
  have hwrites := step_writes h
  unfold step at h
  split at h
  · cases h
  cases action with
  | exitProcess => exact exitProcess_exitsBounded h hk
  | memoryListener stale => exact memoryListener_exitsBounded h hk
  | memory reply => exact memoryReplies_exitsBounded hanswers h hk
  | _ =>
      intro t
      have hasked := (hwrites.asks (by simp)).tally_exiting (by simp) t
      rw [exitsAnswered, hasked, hwrites.records.count_eq (by simp), hwrites.fields]
      exact hk t

end Kernel
end SistemasOperativos
