import SistemasOperativos.Proofs.Progress
import SistemasOperativos.System.Requests

/-!
# The processes leave in the order in which they exit

An exit passes through five queues and as many hands: from the CPU to the dispatch listener, to
`exit_process` through `exit_q`, to the memory module, and back to the memory listener.  None of
them overtakes another, so the exits handled are the first of those requested, these the first of
those received, and these the first of those the CPU has sent, each in the same order.
-/

namespace SistemasOperativos

/-! ## The stages of an exit -/

/-- How far an exit has come: the CPU has sent `EXIT_CALL`, the kernel has received it, it has sent
`PROCESS_EXIT`, or it has handled `PROCESS_EXIT_READY`. -/
inductive ExitStage
  | answered | received | requested | handled
deriving DecidableEq, Repr

/-- The process whose exit comes to the stage by the event. -/
def Event.exitAt : ExitStage → Event → Option ℕ
  | .answered, .answered .exitCall serial => some serial
  | .received, .exitReceived serial => some serial
  | .requested, .exitRequested serial => some serial
  | .handled, .exitHandled serial => some serial
  | _, _ => none

/-- The thread that brings an exit to the stage. -/
def ExitStage.thread : ExitStage → Thread
  | .answered => .cpu
  | .received => .dispatchListener
  | .requested => .exitProcess
  | .handled => .memoryListener

/-- The processes whose exit has come to the stage, in order. -/
def exitsAt (stage : ExitStage) (history : List Event) : List ℕ :=
  history.filterMap (Event.exitAt stage)

@[simp] theorem exitsAt_append (stage : ExitStage) (history events : List Event) :
    exitsAt stage (history ++ events) = exitsAt stage history ++ exitsAt stage events :=
  List.filterMap_append

@[simp] theorem exitsAt_singleton (stage : ExitStage) (event : Event) :
    exitsAt stage [event] = (event.exitAt stage).toList := by
  cases h : event.exitAt stage <;> simp [exitsAt, h]

theorem Event.thread_of_exitAt {stage : ExitStage} {event : Event}
    (h : (event.exitAt stage).isSome) : event.thread = stage.thread := by
  unfold exitAt at h
  split at h
  all_goals first | rfl | cases h

theorem Request.thread_of_exiting {request : Request} (h : request.exiting.isSome) :
    request.thread = .exitProcess := by
  cases request with
  | processExit => rfl
  | _ => cases h

namespace Kernel

variable {cfg : KernelConfig} {k k' : Kernel} {now : Word} {stale : ℕ → Pcb}
  {action : KernelAction} {thread : Thread} {c c' : Cpu} {ports : CpuPorts}

/-- The other threads bring no exit to the stage. -/
theorem Records.exitsAt_eq (h : Records thread k k') (stage : ExitStage)
    (hne : thread ≠ stage.thread) : exitsAt stage k'.history = exitsAt stage k.history := by
  obtain ⟨events, hhistory, hevents⟩ := h
  rw [hhistory, exitsAt_append, List.append_right_eq_self]
  refine List.filterMap_eq_nil_iff.2 fun event hmem => ?_
  by_contra hsome
  exact hne (hevents event hmem ▸ Event.thread_of_exitAt (Option.isSome_iff_ne_none.2 hsome))

/-! ## Where an exit is between its stages -/

/-- The exits at each stage are those at the next and, behind them, those in between. -/
structure ExitsQueued (k : Kernel) : Prop where
  answered : exitsAt .answered k.history =
    exitsAt .received k.history ++ (exitReturns k.fromCpu).map Job.serial
  received : exitsAt .received k.history = exitsAt .requested k.history ++
    (k.exitProcessThread.keeping ++ k.exitQ.items ++ k.dispatchThread.exiting).map Job.serial
  requested : exitsAt .requested k.history = exitsAt .handled k.history ++
    (k.memoryThread.exiting ++ k.fromMemory.filterMap Reply.exiting ++
      k.toMemory.filterMap Request.exiting)

theorem exitProcess_exitsQueued (h : k.exitProcess = some k') (hk : k.ExitsQueued) :
    k'.ExitsQueued := by
  obtain ⟨hanswered, hreceived, hrequested⟩ := hk
  unfold exitProcess at h
  repeat' split at h
  all_goals cases h
  all_goals constructor
  all_goals simp_all [Event.exitAt, ExitProcess.keeping, Request.exiting,
    PQueue.wait_eq_some, PQueue.pop_eq_some]

theorem dispatchListener_exitsQueued (h : k.dispatchListener cfg now = some k')
    (hk : k.ExitsQueued) : k'.ExitsQueued := by
  obtain ⟨hanswered, hreceived, hrequested⟩ := hk
  unfold dispatchListener at h
  repeat' split at h
  all_goals cases h
  all_goals constructor
  all_goals simp_all [Event.exitAt, exitReturns, DispatchListener.exiting]

/-- Looking for the PCB brings no exit to a stage. -/
theorem ExitScan.exitsAt_foldl (stage : ExitStage) (pid : Word) (jobs : List Job)
    (scan : ExitScan) : exitsAt stage (jobs.foldl (ExitScan.visit pid stale) scan).history =
      exitsAt stage scan.history := by
  obtain ⟨reads, hreads, hall⟩ := ExitScan.history_foldl pid stale jobs scan
  rw [hreads, exitsAt_append, List.append_right_eq_self]
  refine List.filterMap_eq_nil_iff.2 fun event hmem => ?_
  obtain ⟨serial, rfl⟩ := hall event hmem
  cases stage <;> rfl

theorem memoryListener_exitsQueued (h : k.memoryListener stale = some k') (hk : k.ExitsQueued) :
    k'.ExitsQueued := by
  obtain ⟨hanswered, hreceived, hrequested⟩ := hk
  unfold memoryListener setTable at h
  repeat' split at h
  all_goals cases h
  all_goals constructor
  all_goals simp_all [Event.exitAt, MemoryListener.exiting, Reply.exiting, List.filterMap_cons,
    ExitScan.exitsAt_foldl]

theorem memoryReplies_exitsQueued (hpids : ∀ request ∈ k.toMemory, request.pid ≠ 0) {reply : Reply}
    (h : k.memoryReplies inOrder reply = some k') (hk : k.ExitsQueued) : k'.ExitsQueued := by
  obtain ⟨hanswered, hreceived, hrequested⟩ := hk
  unfold memoryReplies at h
  split at h <;> cases h
  rename_i rest hrest
  obtain ⟨dropped, request, hqueue, hdropped, -, hreply⟩ := inOrder_eq_some hrest
  -- the pids are not zero, so the request answered is the first
  obtain rfl : dropped = [] := List.eq_nil_iff_forall_not_mem.2 fun other hmem =>
    hpids other (hqueue ▸ List.mem_append_left _ hmem) (hdropped other hmem)
  refine ⟨hanswered, hreceived, ?_⟩
  rw [hrequested, hqueue]
  simp [List.filterMap_append, List.filterMap_cons, Request.exiting_of_answeredBy hreply]
  cases reply.exiting <;> simp

theorem step_exitsQueued (hpids : ∀ request ∈ k.toMemory, request.pid ≠ 0)
    (h : k.step cfg inOrder action = some k') (hk : k.ExitsQueued) : k'.ExitsQueued := by
  have hwrites := step_writes h
  unfold step at h
  split at h
  · cases h
  cases action with
  | exitProcess => exact exitProcess_exitsQueued h hk
  | dispatchListener now => exact dispatchListener_exitsQueued h hk
  | memoryListener stale => exact memoryListener_exitsQueued h hk
  | memory reply => exact memoryReplies_exitsQueued hpids h hk
  | _ =>
      have hasked := (hwrites.asks (by simp)).filterMap_eq
        (fun _ => Request.thread_of_exiting) (by simp)
      have hrecords := hwrites.records.exitsAt_eq
      refine ⟨?_, ?_, ?_⟩
      · rw [hrecords .answered (by simp [ExitStage.thread]),
          hrecords .received (by simp [ExitStage.thread]), hwrites.fields]
        exact hk.answered
      · rw [hrecords .received (by simp [ExitStage.thread]),
          hrecords .requested (by simp [ExitStage.thread]), hwrites.fields]
        exact hk.received
      · rw [hrecords .requested (by simp [ExitStage.thread]),
          hrecords .handled (by simp [ExitStage.thread]), hasked, hwrites.fields]
        exact hk.requested

theorem map_exitReturns_concat (fromCpu : List (KernelHeader × Job)) (header : KernelHeader)
    (job : Job) : (exitReturns (fromCpu ++ [(header, job)])).map Job.serial =
      (exitReturns fromCpu).map Job.serial ++ exitsAt .answered [.answered header job.serial] := by
  cases header <;> simp [exitReturns, Event.exitAt]

/-- The CPU puts the exits it sends behind those that the kernel has not received. -/
theorem cpuStep_answered {cpuAction : CpuAction}
    (h : c.step k.ports cpuAction = some (c', ports)) {received : List ℕ}
    (hanswered : exitsAt .answered k.history = received ++ (exitReturns k.fromCpu).map Job.serial) :
    exitsAt .answered ports.history = received ++ (exitReturns ports.fromCpu).map Job.serial := by
  unfold Cpu.step Cpu.receivePcb Cpu.receiveInterruption Cpu.cpuCycle at h
  repeat' split at h
  all_goals cases h
  all_goals simp_all [Kernel.ports, map_exitReturns_concat, Event.exitAt]

theorem cpuStep_exitsQueued {cpuAction : CpuAction}
    (h : c.step k.ports cpuAction = some (c', ports)) (hk : k.ExitsQueued) :
    (k.withPorts ports).ExitsQueued := by
  obtain ⟨events, hhistory, hcpu⟩ := Cpu.step_history h
  have hrecords := (records_withPorts hhistory hcpu).exitsAt_eq
  refine ⟨?_, ?_, ?_⟩
  · rw [hrecords .received (by simp [ExitStage.thread])]
    exact cpuStep_answered h hk.answered
  · rw [hrecords .received (by simp [ExitStage.thread]),
      hrecords .requested (by simp [ExitStage.thread])]
    exact hk.received
  · rw [hrecords .requested (by simp [ExitStage.thread]),
      hrecords .handled (by simp [ExitStage.thread])]
    exact hk.requested

end Kernel

/-! ## Runs -/

namespace System

variable {cfg : KernelConfig} {s : System}

theorem exitsQueued_of_reachable (hs : (system cfg inOrder).Reachable s)
    (hbound : s.kernel.admitted.length < 2 ^ 32) : s.kernel.ExitsQueued := by
  revert hbound
  refine hs.invariant_of (fun _ => pidsNonzero_of_reachable) ?initial ?step
  case initial => exact fun _ => ⟨rfl, rfl, rfl⟩
  case step =>
    intro action s s' _ hpids hs h hbound
    rcases step_cases h with ⟨action, k, rfl, hk, rfl⟩ | ⟨action, c, ports, rfl, hcpu, rfl⟩
    · have hbound := Nat.lt_of_le_of_lt (Kernel.step_admitted_le hk) hbound
      obtain ⟨assigned, hassigned, hnonzero⟩ := hpids hbound
      exact Kernel.step_exitsQueued
        (fun request hmem => hnonzero _ (hassigned.requests request hmem)) hk (hs hbound)
    · exact Kernel.cpuStep_exitsQueued hcpu (hs hbound)

/-- In every run in which the counter of pids does not come round, the exits that the kernel has
handled are the first of those it has requested of the memory module, these the first of those it
has received, and these the first of those that the CPU has sent. -/
theorem exits_in_order (hs : (system cfg inOrder).Reachable s)
    (hbound : s.kernel.admitted.length < 2 ^ 32) :
    exitsAt .handled s.kernel.history <+: exitsAt .requested s.kernel.history ∧
      exitsAt .requested s.kernel.history <+: exitsAt .received s.kernel.history ∧
      exitsAt .received s.kernel.history <+: exitsAt .answered s.kernel.history := by
  obtain ⟨hanswered, hreceived, hrequested⟩ := exitsQueued_of_reachable hs hbound
  exact ⟨⟨_, hrequested.symm⟩, ⟨_, hreceived.symm⟩, ⟨_, hanswered.symm⟩⟩

/-- Two processes execute their EXIT, and the memory module has released the first. -/
def twoExits : List Action :=
  let program : List Instruction := [⟨ascii ['E', 'X', 'I', 'T'], []⟩]
  onKernel (admission 0 7 program ++ admission 1 8 program ++ initialization 1 ++
    List.replicate 5 .toReady ++ initialization 2 ++ List.replicate 5 .toReady ++
    List.replicate 8 (.toExec 0)) ++ List.replicate 3 (.cpu .receivePcb) ++ onCycle 9 ++
    onKernel (List.replicate 5 (.dispatchListener 5) ++ List.replicate 8 (.toExec 6)) ++
    List.replicate 3 (.cpu .receivePcb) ++ onCycle 9 ++
    onKernel (List.replicate 5 (.dispatchListener 9) ++ List.replicate 6 .exitProcess ++
      [.memory (.processExitReady 0 1)] ++ List.replicate 4 (.memoryListener default))

/-- The first has left, and the second has sent its exit to the kernel. -/
theorem exits_in_order_small : ∃ s, (system (.small .fifo) inOrder).Reachable s ∧
    exitsAt .handled s.kernel.history = [0] ∧ exitsAt .answered s.kernel.history = [0, 1] ∧
    [0] <+: exitsAt .requested s.kernel.history ∧
    exitsAt .received s.kernel.history <+: [0, 1] := by
  obtain ⟨s, hs, htest⟩ := Machine.exists_reachable_of_run (system (.small .fifo) inOrder)
    twoExits (fun s => s.kernel.admitted.length = 2 ∧
      exitsAt .handled s.kernel.history = [0] ∧ exitsAt .answered s.kernel.history = [0, 1])
    (by decide +kernel)
  obtain ⟨htwo, hhandled, hanswered⟩ := of_decide_eq_true htest
  obtain ⟨hfirst, -, hlast⟩ := exits_in_order hs (by rw [htwo]; decide)
  rw [hhandled] at hfirst
  rw [hanswered] at hlast
  exact ⟨s, hs, hhandled, hanswered, hfirst, hlast⟩

end System
end SistemasOperativos
