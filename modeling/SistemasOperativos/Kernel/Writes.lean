import SistemasOperativos.Kernel.Threads

/-!
# What the threads of the kernel write

Each thread writes a few of the shared fields, sends requests of its own kind to the memory
module and adds events of its own to the history.  A property that speaks of none of these is
kept by the steps of the thread.
-/

namespace SistemasOperativos

/-- The threads of the kernel, and its peers. -/
inductive Thread
  | console | toReady | toExec | exitProcess | dispatchListener | memoryListener | ioListener
  | memory | cpu
deriving DecidableEq, Repr

@[simp] def KernelAction.thread : KernelAction → Thread
  | .consoleAccept _ | .consoleReceive .. | .console _ => .console
  | .toReady => .toReady
  | .toExec _ => .toExec
  | .exitProcess => .exitProcess
  | .dispatchListener _ => .dispatchListener
  | .memoryListener _ => .memoryListener
  | .ioListener _ => .ioListener
  | .memory _ => .memory

/-- Who adds the event to the history. -/
@[simp] def Event.thread : Event → Thread
  | .permit _ => .toReady
  | .dispatched _ | .stamped .. => .toExec
  | .exitRequested _ => .exitProcess
  | .measured .. | .exitReceived _ => .dispatchListener
  | .processOk .. | .readDestroyed _ | .exitHandled _ | .tableHandled ..
  | .suspensionHandled => .memoryListener
  | .suspended _ => .ioListener
  | .executed .. | .answered .. => .cpu

/-- Who sends the request. -/
@[simp] def Request.thread : Request → Thread
  | .processNew .. => .toReady
  | .processSuspend .. => .ioListener
  | .processExit .. => .exitProcess

namespace Kernel

variable {cfg : KernelConfig} {behaviour : MemoryBehaviour} {k k' : Kernel} {now : Word}
  {stale : ℕ → Pcb} {action : KernelAction} {thread : Thread}

/-- `k` with the fields that the thread of the action writes as they are in `k'`. -/
def written (k k' : Kernel) : KernelAction → Kernel
  | .consoleAccept _ => { k with consoles := k'.consoles }
  | .consoleReceive .. => { k with consoles := k'.consoles, admitted := k'.admitted }
  | .console _ =>
      { k with
        consoles := k'.consoles, newQ := k'.newQ, pid := k'.pid, anyForReady := k'.anyForReady }
  | .toReady =>
      { k with
        newQ := k'.newQ, suspendedReadyQ := k'.suspendedReadyQ, memoryInitQ := k'.memoryInitQ
        readyQ := k'.readyQ, semMultiprogram := k'.semMultiprogram
        anyForReady := k'.anyForReady, pcbTableReady := k'.pcbTableReady
        executionMutex := k'.executionMutex, interruptReady := k'.interruptReady
        interrupts := k'.interrupts, readyForExec := k'.readyForExec, toMemory := k'.toMemory
        toReadyThread := k'.toReadyThread, history := k'.history }
  | .toExec _ =>
      { k with
        readyQ := k'.readyQ, cpuFree := k'.cpuFree, readyForExec := k'.readyForExec
        executionMutex := k'.executionMutex, toCpu := k'.toCpu, toExecTime := k'.toExecTime
        toExecThread := k'.toExecThread, history := k'.history }
  | .exitProcess =>
      { k with
        exitQ := k'.exitQ, memoryExitQ := k'.memoryExitQ, toExit := k'.toExit
        toMemory := k'.toMemory, exitProcessThread := k'.exitProcessThread
        history := k'.history }
  | .dispatchListener _ =>
      { k with
        fromCpu := k'.fromCpu, readyQ := k'.readyQ, blockedQ := k'.blockedQ, exitQ := k'.exitQ
        cpuFree := k'.cpuFree, interruptReady := k'.interruptReady
        processForIO := k'.processForIO, readyForExec := k'.readyForExec, toExit := k'.toExit
        dispatchThread := k'.dispatchThread, history := k'.history }
  | .memoryListener _ =>
      { k with
        fromMemory := k'.fromMemory, memoryInitQ := k'.memoryInitQ
        pcbTableReady := k'.pcbTableReady, waitingForSuspension := k'.waitingForSuspension
        semMultiprogram := k'.semMultiprogram, destroyed := k'.destroyed, crashed := k'.crashed
        toReadyThread := k'.toReadyThread, memoryThread := k'.memoryThread
        history := k'.history }
  | .ioListener _ =>
      { k with
        blockedQ := k'.blockedQ, suspendedBlockQ := k'.suspendedBlockQ
        suspendedReadyQ := k'.suspendedReadyQ, readyQ := k'.readyQ
        semMultiprogram := k'.semMultiprogram, processForIO := k'.processForIO
        anyForReady := k'.anyForReady, waitingForSuspension := k'.waitingForSuspension
        executionMutex := k'.executionMutex, interruptReady := k'.interruptReady
        interrupts := k'.interrupts, readyForExec := k'.readyForExec, toMemory := k'.toMemory
        ioThread := k'.ioThread, history := k'.history }
  | .memory _ => { k with toMemory := k'.toMemory, fromMemory := k'.fromMemory }

/-! ## Events and requests of a thread -/

/-- What `k'` has more in its history than `k` are events of the thread. -/
def Records (thread : Thread) (k k' : Kernel) : Prop :=
  ∃ events, k'.history = k.history ++ events ∧ ∀ event ∈ events, event.thread = thread

theorem Records.none (h : k'.history = k.history) : Records thread k k' :=
  ⟨[], by simp [h], by simp⟩

theorem Records.one {event : Event} (h : k'.history = k.history ++ [event])
    (hevent : event.thread = thread) : Records thread k k' :=
  ⟨[event], h, by simpa using hevent⟩

/-- The events of the other threads are those of before. -/
theorem Records.countP_eq (h : Records thread k k') {owner : Thread} {p : Event → Bool}
    (hp : ∀ event, p event = true → event.thread = owner) (hne : thread ≠ owner) :
    k'.history.countP p = k.history.countP p := by
  obtain ⟨events, hhistory, hevents⟩ := h
  rw [hhistory, List.countP_append, Nat.add_eq_left, List.countP_eq_zero]
  intro event hmem hevent
  exact hne (hevents event hmem ▸ hp event hevent)

theorem Records.count_eq (h : Records thread k k') {event : Event} (hne : thread ≠ event.thread) :
    k'.history.count event = k.history.count event :=
  h.countP_eq (fun _ heq => congrArg Event.thread (eq_of_beq heq)) hne

theorem Records.mem_iff (h : Records thread k k') {event : Event} (hne : thread ≠ event.thread) :
    event ∈ k'.history ↔ event ∈ k.history := by
  rw [← List.count_pos_iff, ← List.count_pos_iff, h.count_eq hne]

/-- What `k'` asks the memory module more than `k` are requests of the thread. -/
def Asks (thread : Thread) (k k' : Kernel) : Prop :=
  ∃ requests, k'.toMemory = k.toMemory ++ requests ∧ ∀ request ∈ requests, request.thread = thread

theorem Asks.none (h : k'.toMemory = k.toMemory) : Asks thread k k' :=
  ⟨[], by simp [h], by simp⟩

theorem Asks.one {request : Request} (h : k'.toMemory = k.toMemory ++ [request])
    (hrequest : request.thread = thread) : Asks thread k k' :=
  ⟨[request], h, by simpa using hrequest⟩

/-- The requests of the other threads are those of before. -/
theorem Asks.countP_eq (h : Asks thread k k') {owner : Thread} {p : Request → Bool}
    (hp : ∀ request, p request = true → request.thread = owner) (hne : thread ≠ owner) :
    k'.toMemory.countP p = k.toMemory.countP p := by
  obtain ⟨requests, htoMemory, hrequests⟩ := h
  rw [htoMemory, List.countP_append, Nat.add_eq_left, List.countP_eq_zero]
  intro request hmem hrequest
  exact hne (hrequests request hmem ▸ hp request hrequest)

theorem Asks.filterMap_eq {α : Type} (h : Asks thread k k') {owner : Thread}
    {f : Request → Option α} (hf : ∀ request, (f request).isSome → request.thread = owner)
    (hne : thread ≠ owner) : k'.toMemory.filterMap f = k.toMemory.filterMap f := by
  obtain ⟨requests, htoMemory, hrequests⟩ := h
  rw [htoMemory, List.filterMap_append, List.append_right_eq_self, List.filterMap_eq_nil_iff]
  intro request hmem
  by_contra hsome
  exact hne (hrequests request hmem ▸ hf request (Option.isSome_iff_ne_none.2 hsome))

/-! ## The threads -/

/-- A step writes the fields of its thread, adds its events and sends its requests. -/
structure Writes (action : KernelAction) (k k' : Kernel) : Prop where
  fields : k' = k.written k' action
  records : Records action.thread k k'
  asks : action.thread ≠ .memory → Asks action.thread k k'

theorem toReady_writes (h : k.toReady cfg = some k') : Writes .toReady k k' := by
  unfold toReady putToReady at h
  repeat' split at h
  all_goals cases h
  all_goals first
    | exact ⟨rfl, .none rfl, fun _ => .none rfl⟩
    | exact ⟨rfl, .one rfl rfl, fun _ => .none rfl⟩
    | exact ⟨rfl, .none rfl, fun _ => .one rfl rfl⟩

theorem toExec_writes (h : k.toExec now = some k') : Writes (.toExec now) k k' := by
  unfold toExec at h
  repeat' split at h
  all_goals cases h
  all_goals first
    | exact ⟨rfl, .none rfl, fun _ => .none rfl⟩
    | exact ⟨rfl, .one rfl rfl, fun _ => .none rfl⟩

theorem exitProcess_writes (h : k.exitProcess = some k') : Writes .exitProcess k k' := by
  unfold exitProcess at h
  repeat' split at h
  all_goals cases h
  all_goals first
    | exact ⟨rfl, .none rfl, fun _ => .none rfl⟩
    | exact ⟨rfl, .one rfl rfl, fun _ => .one rfl rfl⟩

theorem dispatchListener_writes (h : k.dispatchListener cfg now = some k') :
    Writes (.dispatchListener now) k k' := by
  unfold dispatchListener at h
  repeat' split at h
  all_goals cases h
  all_goals first
    | exact ⟨rfl, .none rfl, fun _ => .none rfl⟩
    | exact ⟨rfl, .one rfl rfl, fun _ => .none rfl⟩

/-- Visiting PCBs appends reads of destroyed PCBs to the history, and nothing else. -/
theorem ExitScan.history_foldl (pid : Word) (stale : ℕ → Pcb) (jobs : List Job)
    (scan : ExitScan) : ∃ reads, (jobs.foldl (visit pid stale) scan).history =
      scan.history ++ reads ∧ ∀ event ∈ reads, ∃ serial, event = .readDestroyed serial := by
  induction jobs generalizing scan with
  | nil => exact ⟨[], by simp⟩
  | cons job jobs ih =>
      obtain ⟨reads, hreads, hall⟩ := ih (scan.visit pid stale job)
      rw [List.foldl_cons, hreads]
      unfold visit
      split
      · exact ⟨.readDestroyed job.serial :: reads, by simp, by simpa using hall⟩
      · split <;> exact ⟨reads, rfl, hall⟩

theorem memoryListener_writes (h : k.memoryListener stale = some k') :
    Writes (.memoryListener stale) k k' := by
  unfold memoryListener setTable at h
  repeat' split at h
  all_goals cases h
  all_goals first
    | exact ⟨rfl, .none rfl, fun _ => .none rfl⟩
    | exact ⟨rfl, .one rfl rfl, fun _ => .none rfl⟩
    | skip
  rename_i serial pid hat
  obtain ⟨reads, hreads, hall⟩ := ExitScan.history_foldl pid stale k.memoryExitQ.items
    ⟨k.destroyed, none, false, k.history⟩
  refine ⟨rfl, ⟨reads, hreads, fun event hmem => ?_⟩, fun _ => .none rfl⟩
  obtain ⟨_, rfl⟩ := hall event hmem
  rfl

/-- The memory listener changes PCBs that `to_ready` holds a pointer to, and nothing else of
`to_ready`. -/
theorem memoryListener_toReadyThread {α : Type} (part : ToReady → α)
    (hpart : ∀ serial reply state, part (state.mapWaiting (Job.setTable serial reply)) = part state)
    (h : k.memoryListener stale = some k') : part k'.toReadyThread = part k.toReadyThread := by
  unfold memoryListener setTable at h
  repeat' split at h
  all_goals cases h
  all_goals first
    | rfl
    | exact hpart _ _ _

theorem ioListener_writes (h : k.ioListener cfg now = some k') : Writes (.ioListener now) k k' := by
  unfold ioListener putToReady at h
  repeat' split at h
  all_goals cases h
  all_goals first
    | exact ⟨rfl, .none rfl, fun _ => .none rfl⟩
    | exact ⟨rfl, .one rfl rfl, fun _ => .none rfl⟩
    | exact ⟨rfl, .none rfl, fun _ => .one rfl rfl⟩

/-- What a step of the kernel writes. -/
theorem step_writes (h : k.step cfg behaviour action = some k') : Writes action k k' := by
  unfold step at h
  split at h
  · cases h
  cases action with
  | toReady => exact toReady_writes h
  | toExec now => exact toExec_writes h
  | exitProcess => exact exitProcess_writes h
  | dispatchListener now => exact dispatchListener_writes h
  | memoryListener stale => exact memoryListener_writes h
  | ioListener now => exact ioListener_writes h
  | memory reply =>
      simp only [memoryReplies] at h
      split at h <;> cases h
      exact ⟨rfl, .none rfl, fun hne => absurd rfl hne⟩
  | _ =>
      simp only [consoleAccept, consoleReceive, console] at h
      repeat' split at h
      all_goals cases h
      all_goals exact ⟨rfl, .none rfl, fun _ => .none rfl⟩

end Kernel
end SistemasOperativos
