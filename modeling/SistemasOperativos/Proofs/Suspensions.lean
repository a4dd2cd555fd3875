import SistemasOperativos.Proofs.History

/-!
# The handshake of a suspension

`io_listener` asks the memory module to suspend a process, waits on `waiting_for_suspension`, and
then gives the permit of the process back.  The semaphore starts at one, so the wait of the first
suspension ends before its reply.  As long as no wait takes the initial unit, each wait is ended
by the reply to the one request outstanding.
-/

namespace SistemasOperativos

/-! ## Suspensions under way -/

def Request.isSuspend : Request → Bool
  | .processSuspend .. => true
  | _ => false

def Reply.isSuspensionReady : Reply → Bool
  | .processSuspensionReady => true
  | _ => false

/-- One when the memory listener has received a `PROCESS_SUSPENSION_READY` and not yet posted. -/
def MemoryListener.suspending : MemoryListener → ℕ
  | .suspension => 1
  | _ => 0

/-- One when `io_listener` waits for a suspension. -/
def IoListener.awaitingSuspension : IoListener → ℕ
  | .awaitSuspension _ => 1
  | _ => 0

/-- The process `io_listener` moves to `suspended_block_q`, up to the release of its permit. -/
def IoListener.passing : IoListener → List ℕ
  | .pushSuspended job => [job.serial]
  | .postSuspended serial | .release serial => [serial]
  | _ => []

/-- The release of a permit by a suspension. -/
def Event.isSuspended : Event → Bool
  | .suspended _ => true
  | _ => false

theorem Event.thread_of_isSuspended {event : Event} (h : event.isSuspended = true) :
    event.thread = .ioListener := by
  cases event <;> simp_all [isSuspended]

theorem Request.thread_of_isSuspend {request : Request} (h : request.isSuspend = true) :
    request.thread = .ioListener := by
  cases request <;> simp_all [isSuspend]

theorem Request.isSuspend_of_answeredBy {request : Request} {reply : Reply}
    (h : request.answeredBy reply = true) : request.isSuspend = reply.isSuspensionReady := by
  cases request <;> cases reply <;> simp_all [answeredBy, isSuspend, Reply.isSuspensionReady]

/-- The memory module completes one suspension for each reply. -/
theorem inOrder_suspends {requests rest : List Request} {reply : Reply}
    (h : inOrder requests reply = some rest) :
    rest.countP Request.isSuspend + (if reply.isSuspensionReady then 1 else 0) ≤
      requests.countP Request.isSuspend := by
  obtain ⟨dropped, request, rfl, -, -, hanswered⟩ := inOrder_eq_some h
  rw [List.countP_append, List.countP_cons, Request.isSuspend_of_answeredBy hanswered]
  omega

namespace Kernel

variable {cfg : KernelConfig} {k k' : Kernel} {action : KernelAction} {stale : ℕ → Pcb}

/-- The permits released by suspensions. -/
def permitsReleased (k : Kernel) : ℕ :=
  k.history.countP Event.isSuspended

/-- The `PROCESS_SUSPENSION_READY` replies handled. -/
def suspensionsHandled (k : Kernel) : ℕ :=
  k.history.count .suspensionHandled

/-- No more permits are released than replies are handled, and when `io_listener` moves a
process to `suspended_block_q` the memory module has no suspension left to complete for it. -/
structure SuspensionsAnswered (k : Kernel) : Prop where
  released : k.permitsReleased ≤ k.suspensionsHandled
  completed : ∀ serial ∈ k.ioThread.passing, ∀ pid pageTable processFramesIndex,
    .processSuspend serial pid pageTable processFramesIndex ∉ k.toMemory

/-- The units of `waiting_for_suspension` are the initial one and those of the replies handled;
and each suspension asked for has one reply at most. -/
structure SuspensionsBalanced (k : Kernel) : Prop where
  units : k.waitingForSuspension + k.ioThread.passing.length + k.permitsReleased =
    1 + k.suspensionsHandled
  replies : k.toMemory.countP Request.isSuspend + k.fromMemory.countP Reply.isSuspensionReady +
    k.memoryThread.suspending + k.suspensionsHandled ≤
      k.permitsReleased + k.ioThread.passing.length + k.ioThread.awaitingSuspension

theorem ioListener_suspensionsBalanced {now : Word} (h : k.ioListener cfg now = some k')
    (hk : k.SuspensionsBalanced) : k'.SuspensionsBalanced := by
  obtain ⟨hunits, hreplies⟩ := hk
  unfold ioListener at h
  cases hat : k.ioThread
  all_goals
    rw [hat] at hunits hreplies
    simp only [hat, putToReady] at h
    repeat' split at h
    all_goals cases h
    all_goals first
      | exact ⟨hunits, hreplies⟩
      | constructor
  all_goals simp_all [permitsReleased, suspensionsHandled, IoListener.passing,
    IoListener.awaitingSuspension, Request.isSuspend, Event.isSuspended]
  all_goals omega

theorem memoryListener_suspensionsBalanced (h : k.memoryListener stale = some k')
    (hk : k.SuspensionsBalanced) : k'.SuspensionsBalanced := by
  obtain ⟨hunits, hreplies⟩ := hk
  unfold memoryListener at h
  cases hat : k.memoryThread with
  | exitScan serial pid =>
      simp only [hat, Option.some.injEq] at h
      subst h
      constructor
      all_goals simp_all [permitsReleased, suspensionsHandled, MemoryListener.suspending,
        ExitScan.countP_history_foldl (p := Event.isSuspended) fun _ => rfl,
        ExitScan.count_history_foldl]
  | _ =>
      rw [hat] at hreplies
      simp only [hat] at h
      repeat' split at h
      all_goals cases h
      all_goals first
        | exact ⟨hunits, hreplies⟩
        | constructor
      all_goals simp_all [permitsReleased, suspensionsHandled, MemoryListener.suspending,
        Reply.isSuspensionReady, Event.isSuspended, List.countP_cons]
      all_goals omega

theorem memoryReplies_suspensionsBalanced {reply : Reply}
    (h : k.memoryReplies inOrder reply = some k') (hk : k.SuspensionsBalanced) :
    k'.SuspensionsBalanced := by
  obtain ⟨hunits, hreplies⟩ := hk
  unfold memoryReplies at h
  split at h <;> cases h
  rename_i rest hrest
  have := inOrder_suspends hrest
  refine ⟨hunits, ?_⟩
  simp only [permitsReleased, suspensionsHandled, List.countP_append, List.countP_singleton]
    at hreplies ⊢
  omega

theorem step_suspensionsBalanced (h : k.step cfg inOrder action = some k')
    (hk : k.SuspensionsBalanced) : k'.SuspensionsBalanced := by
  have hwrites := step_writes h
  unfold step at h
  split at h
  · cases h
  cases action with
  | ioListener now => exact ioListener_suspensionsBalanced h hk
  | memoryListener stale => exact memoryListener_suspensionsBalanced h hk
  | memory reply => exact memoryReplies_suspensionsBalanced h hk
  | _ =>
      obtain ⟨hunits, hreplies⟩ := hk
      have hreleased : k'.permitsReleased = k.permitsReleased :=
        hwrites.records.countP_eq (fun _ => Event.thread_of_isSuspended) (by simp)
      have hhandled : k'.suspensionsHandled = k.suspensionsHandled :=
        hwrites.records.count_eq (by simp)
      have hasked := (hwrites.asks (by simp)).countP_eq
        (fun _ => Request.thread_of_isSuspend) (by simp)
      constructor
      · rw [hreleased, hhandled, hwrites.fields]; exact hunits
      · rw [hreleased, hhandled, hasked, hwrites.fields]; exact hreplies

theorem start_suspensionsBalanced (cfg : KernelConfig) : (start cfg).SuspensionsBalanced :=
  ⟨rfl, Nat.le_refl 0⟩

/-- The handshake does not depend on the sockets to the CPU. -/
theorem SuspensionsBalanced.withPorts {ports : CpuPorts} {events : List Event}
    (hk : k.SuspensionsBalanced) (hhistory : ports.history = k.history ++ events)
    (hcpu : ∀ event ∈ events, event.byCpu = true) :
    (k.withPorts ports).SuspensionsBalanced := by
  have hrecords := records_withPorts hhistory hcpu
  have hreleased : (k.withPorts ports).permitsReleased = k.permitsReleased :=
    hrecords.countP_eq (fun _ => Event.thread_of_isSuspended) (by simp)
  have hhandled : (k.withPorts ports).suspensionsHandled = k.suspensionsHandled :=
    hrecords.count_eq (by simp)
  obtain ⟨hunits, hreplies⟩ := hk
  rw [← hreleased, ← hhandled] at hunits hreplies
  exact ⟨hunits, hreplies⟩

/-! ## The initial unit -/

/-- `io_listener` ends its wait for a suspension only when `waiting_for_suspension` has more
than its initial unit. -/
def KeepsInitialUnit (action : KernelAction) (k : Kernel) : Prop :=
  match action with
  | .ioListener _ => k.ioThread.awaitingSuspension = 1 → 2 ≤ k.waitingForSuspension
  | _ => True

instance (action : KernelAction) (k : Kernel) : Decidable (k.KeepsInitialUnit action) := by
  unfold KeepsInitialUnit
  split <;> infer_instance

/-- The semaphore then never falls to zero. -/
theorem step_waitingForSuspension {behaviour : MemoryBehaviour}
    (h : k.step cfg behaviour action = some k') (hkeeps : KeepsInitialUnit action k)
    (hk : 0 < k.waitingForSuspension) : 0 < k'.waitingForSuspension := by
  have hwrites := step_writes h
  unfold step at h
  split at h
  · cases h
  cases action with
  | ioListener now =>
      simp only [KeepsInitialUnit] at hkeeps
      simp only [ioListener, putToReady] at h
      repeat' split at h
      all_goals cases h
      all_goals simp_all [IoListener.awaitingSuspension]
      all_goals omega
  | memoryListener stale =>
      simp only [memoryListener, setTable] at h
      repeat' split at h
      all_goals cases h
      all_goals first
        | exact hk
        | exact Nat.succ_pos _
  | _ => rw [hwrites.fields]; exact hk

/-- With the initial unit kept, each wait has been ended by its own reply. -/
theorem SuspensionsBalanced.answered (hk : k.SuspensionsBalanced)
    (hunit : 0 < k.waitingForSuspension) : k.SuspensionsAnswered := by
  obtain ⟨hunits, hreplies⟩ := hk
  refine ⟨by omega, fun serial hpassing pid pageTable processFramesIndex hmem => ?_⟩
  have hpending := List.countP_pos_iff.2 ⟨_, hmem, (rfl : Request.isSuspend _ = true)⟩
  have hnone : k.ioThread.awaitingSuspension = 0 := by
    cases hat : k.ioThread <;> simp_all [IoListener.passing, IoListener.awaitingSuspension]
  omega

end Kernel

namespace System

variable {cfg : KernelConfig} {s : System}

/-- The guard of the system: that of the kernel. -/
def KeepsInitialUnit (action : Action) (s : System) : Prop :=
  match action with
  | .kernel action => s.kernel.KeepsInitialUnit action
  | .cpu _ => True

instance (action : Action) (s : System) : Decidable (KeepsInitialUnit action s) := by
  unfold KeepsInitialUnit
  split <;> infer_instance

theorem suspensionsBalanced_of_reachable (hs : (system cfg inOrder).Reachable s) :
    s.kernel.SuspensionsBalanced := by
  refine hs.invariant (Kernel.start_suspensionsBalanced cfg) fun action s s' _ hs h => ?_
  rcases step_kernel h with ⟨kernelAction, rfl, hstep⟩ | ⟨ports, events, heq, hhistory, hcpu⟩
  · exact Kernel.step_suspensionsBalanced hstep hs
  · exact heq ▸ hs.withPorts hhistory hcpu

/-- In every run in which no wait takes the initial unit of `waiting_for_suspension`, each
permit released by a suspension has its reply, and the suspension is complete in memory. -/
theorem suspensions_answered (hs : (system cfg inOrder).ReachableBy KeepsInitialUnit s) :
    s.kernel.SuspensionsAnswered := by
  refine (suspensionsBalanced_of_reachable hs.reachable).answered ?_
  refine hs.invariant ?initial ?step
  case initial => exact Nat.one_pos
  case step =>
    intro action s s' hkeeps hs h
    rcases step_kernel h with ⟨kernelAction, rfl, hstep⟩ | ⟨ports, events, heq, -, -⟩
    · exact Kernel.step_waitingForSuspension hstep hkeeps hs
    · exact heq ▸ hs

/-- A program with an I/O longer than a process may stay blocked. -/
def longIoProgram : List Instruction :=
  [⟨ascii ['I', '/', 'O'], [200]⟩, ⟨ascii ['E', 'X', 'I', 'T'], []⟩]

/-- The process executes its I/O, and `io_listener` asks for its suspension. -/
def suspensionRequested : List Action :=
  onKernel (admission 0 7 longIoProgram ++ initialization 1 ++ List.replicate 5 .toReady ++
    List.replicate 8 (.toExec 0)) ++ List.replicate 3 (.cpu .receivePcb) ++ onCycle 7 ++
    onKernel (List.replicate 6 (.dispatchListener 0) ++ List.replicate 6 (.ioListener 0))

/-- The reply is handled before the wait ends. -/
theorem suspensions_answered_small : ∃ s,
    (system (.small .fifo) inOrder).ReachableBy KeepsInitialUnit s ∧
    s.kernel.permitsReleased = 1 ∧ s.kernel.SuspensionsAnswered := by
  obtain ⟨s, hs, htest⟩ := Machine.exists_reachableBy_of_run (system (.small .fifo) inOrder)
    KeepsInitialUnit
    (suspensionRequested ++ onKernel ([.memory .processSuspensionReady] ++
      List.replicate 2 (.memoryListener default) ++ List.replicate 4 (.ioListener 0)))
    (fun s => s.kernel.permitsReleased = 1)
    (by decide +kernel)
  exact ⟨s, hs, by simpa using htest, suspensions_answered hs⟩

/-- The wait of the first suspension takes the initial unit: the permit is released while the
request is still unread. -/
theorem not_suspensions_answered : ∃ s, (system (.small .fifo) inOrder).Reachable s ∧
    s.kernel.permitsReleased = 1 ∧ s.kernel.suspensionsHandled = 0 ∧
    s.kernel.toMemory.length = 1 ∧ ¬ s.kernel.SuspensionsAnswered := by
  obtain ⟨s, hs, htest⟩ := Machine.exists_reachable_of_run (system (.small .fifo) inOrder)
    (suspensionRequested ++ onKernel (List.replicate 4 (.ioListener 0)))
    (fun s => s.kernel.permitsReleased = 1 ∧ s.kernel.suspensionsHandled = 0 ∧
      s.kernel.toMemory.length = 1)
    (by decide +kernel)
  obtain ⟨hreleased, hhandled, hunread⟩ := of_decide_eq_true htest
  refine ⟨s, hs, hreleased, hhandled, hunread, fun hanswered => ?_⟩
  have := hanswered.released
  omega

end System
end SistemasOperativos
