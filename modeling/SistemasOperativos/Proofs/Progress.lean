import SistemasOperativos.Proofs.PidsAssigned
import SistemasOperativos.Proofs.RunLength
import SistemasOperativos.Proofs.OnePlace
import SistemasOperativos.Proofs.Suspensions
import SistemasOperativos.Proofs.TableHandshake
import SistemasOperativos.Proofs.WakeUps

/-!
# Where the system comes to rest

Under FIFO the system comes to rest with every process released, or it is jammed: `memory_listener`
has destroyed a PCB twice, the CPU has executed a malformed instruction or has a process without
an EXIT, or `table_index_success` has missed a PCB.  No other deadlock is possible.

A thread that cannot move waits for a unit, a packet or the mutex, and each of these is owed by
another thread that can: the units by the balance of each semaphore with what it announces, the
replies of the memory module by its requests, the mutex by the thread inside.
-/

open Tally

namespace SistemasOperativos

/-! ## Pids are not zero -/

/-- As long as the counter does not come round it is the number of pids counted. -/
structure Kernel.PidCounter (k : Kernel) : Prop where
  counted : k.pid.toNat + k.counting = k.admitted.length
  numbering : k.numbering ≤ k.pid.toNat

namespace Kernel

variable {cfg : KernelConfig} {behaviour : MemoryBehaviour} {k k' : Kernel} {now : Word}
  {stale : ℕ → Pcb} {action : KernelAction}

theorem console_pidCounter {i : ℕ} (h : k.console cfg i = some k')
    (hbound : k'.admitted.length < 2 ^ 32) (hk : k.PidCounter) : k'.PidCounter := by
  obtain ⟨hcounted, hnumber⟩ := hk
  obtain ⟨socket, old, new, hat, hconsoles, hadmitted, hcase⟩ := console_cases h
  have hcounting := counting_set hat hconsoles
  have hnumbering := numbering_set hat hconsoles
  rw [hadmitted] at hbound
  rcases hcase with ⟨job, rfl, rfl, hpid⟩ | ⟨job, rfl, rfl, hpid⟩ | hcase
  · simp only [ConsoleThread.counting, ConsoleThread.numbering] at hcounting hnumbering
    have hsucc : k'.pid.toNat = k.pid.toNat + 1 := by
      rw [hpid, BitVec.toNat_add, show (1 : Word).toNat = 1 from rfl, Nat.mod_eq_of_lt (by omega)]
    exact ⟨by rw [hadmitted]; omega, by omega⟩
  · simp only [ConsoleThread.counting, ConsoleThread.numbering] at hcounting hnumbering
    exact ⟨by rw [hadmitted, hpid]; omega, by rw [hpid]; omega⟩
  · obtain ⟨hold, hold', -, hnew, hnew', -, hpid⟩ := hcase
    exact ⟨by rw [hadmitted, hpid]; omega, by rw [hpid]; omega⟩

theorem step_pidCounter (h : k.step cfg behaviour action = some k')
    (hbound : k'.admitted.length < 2 ^ 32) (hk : k.PidCounter) : k'.PidCounter := by
  have hwrites := step_writes h
  unfold step at h
  split at h
  · cases h
  cases action with
  | console i => exact console_pidCounter h hbound hk
  | consoleAccept socket =>
      cases h
      refine ⟨?_, ?_⟩
      · simpa [counting, ConsoleThread.counting] using hk.counted
      · simpa [numbering, ConsoleThread.numbering] using hk.numbering
  | consoleReceive i size instructions blank =>
      obtain ⟨hcounted, hnumber⟩ := hk
      simp only [consoleReceive] at h
      split at h <;> cases h
      rename_i socket hat
      have hcounting := weigh_set (w := fun console => console.2.counting) (socket, .count
        ⟨k.admitted.length, { blank with instructions := instructions, size := size }⟩) hat
      have hnumbering := weigh_set (w := fun console => console.2.numbering) (socket, .count
        ⟨k.admitted.length, { blank with instructions := instructions, size := size }⟩) hat
      constructor
      all_goals simp only [counting, numbering, ConsoleThread.counting, ConsoleThread.numbering,
        List.length_append, List.length_singleton] at *
      all_goals omega
  | _ => rw [hwrites.fields]; exact ⟨hk.counted, hk.numbering⟩

/-- The pid a thread assigns has been counted. -/
theorem PidCounter.assigns_ne_zero (hk : k.PidCounter) : ∀ a ∈ k.assigns action, a.2 ≠ 0 := by
  intro a ha
  unfold assigns at ha
  split at ha
  case h_2 => cases ha
  split at ha
  case h_2 => cases ha
  rename_i i socket job hat
  have hone := weigh_set (w := fun console => console.2.numbering) (socket, .idle) hat
  have hle := hk.numbering
  obtain rfl := List.mem_singleton.1 ha
  simp only [Kernel.numbering, ConsoleThread.numbering] at hone hle
  intro hzero
  have : k.pid.toNat = 0 := by simpa using congrArg BitVec.toNat hzero
  omega

theorem step_admitted_le (h : k.step cfg behaviour action = some k') :
    k.admitted.length ≤ k'.admitted.length := by
  rcases step_receives h with ⟨i, size, instructions, blank, -, hreceive⟩ | ⟨-, hadmitted⟩
  · obtain ⟨job, -, -, hadmitted, -⟩ := consoleReceive_weight hreceive
    rw [hadmitted, List.length_append]
    omega
  · rw [hadmitted]

end Kernel

namespace System

variable {cfg : KernelConfig} {s : System}

/-- As long as the counter does not come round, every PCB, request and reply carries a pid other
than zero. -/
theorem pidsNonzero_of_reachable (hs : (system cfg inOrder).Reachable s)
    (hbound : s.kernel.admitted.length < 2 ^ 32) :
    ∃ assigned, s.PidsAssigned assigned ∧ ∀ a ∈ assigned, a.2 ≠ 0 := by
  obtain ⟨log, hlog⟩ := hs.observed fun action s => s.assigns action
  have hall : ∀ p, ((system cfg inOrder).observe fun action s => s.assigns action).Reachable p →
      p.1.PidsAssigned p.2 ∧ (p.1.kernel.admitted.length < 2 ^ 32 →
        p.1.kernel.PidCounter ∧ ∀ a ∈ p.2, a.2 ≠ 0) := by
    intro p hp
    refine hp.invariant ?initial ?step
    case initial =>
      exact ⟨⟨initial_everyPcb cfg, nofun, nofun, nofun, nofun⟩,
        fun _ => ⟨⟨rfl, Nat.le_refl 0⟩, nofun⟩⟩
    case step =>
      rintro action p p' - ⟨hassigned, hnonzero⟩ h
      obtain ⟨hstep, hlog⟩ := Machine.observe_step.mp h
      rw [hlog]
      refine ⟨step_pidsAssigned hstep hassigned, fun hbound => ?_⟩
      rcases step_cases hstep with ⟨action, k, rfl, hk, heq⟩ | ⟨action, c, ports, rfl, -, heq⟩
      · rw [heq] at hbound ⊢
        have hle := Kernel.step_admitted_le hk
        obtain ⟨hcounter, hlog⟩ := hnonzero (Nat.lt_of_le_of_lt hle hbound)
        refine ⟨Kernel.step_pidCounter hk hbound hcounter, ?_⟩
        exact List.forall_mem_append.2 ⟨hlog, hcounter.assigns_ne_zero⟩
      · rw [heq] at hbound ⊢
        obtain ⟨hcounter, hlog⟩ := hnonzero hbound
        exact ⟨⟨hcounter.counted, hcounter.numbering⟩, by simpa [assigns] using hlog⟩
  obtain ⟨hassigned, hnonzero⟩ := hall _ hlog
  exact ⟨log, hassigned, (hnonzero hbound).2⟩

end System

/-! ## What is owed -/

/-- The call of `pQueue_put` in `new_to_ready` has pushed and not yet posted. -/
def ToReady.posting : ToReady → ℕ
  | .postInit _ => 1
  | _ => 0

/-- The call of `pQueue_take` in `table_index_success` has taken its unit and not yet popped. -/
def MemoryListener.popping : MemoryListener → ℕ
  | .tablePop .. => 1
  | _ => 0

/-- `table_index_success` has found a PCB and not yet popped one. -/
def MemoryListener.taking : MemoryListener → Bool
  | .tableWait .. | .tablePop .. => true
  | _ => false

namespace Kernel

variable {cfg : KernelConfig} {k k' : Kernel} {now : Word} {stale : ℕ → Pcb}
  {action : KernelAction}

/-- The suspensions asked for and not yet handled. -/
def suspensionsUnderWay (k : Kernel) : ℕ :=
  k.toMemory.countP Request.isSuspend + k.fromMemory.countP Reply.isSuspensionReady +
    k.memoryThread.suspending

/-- The units of `waiting_for_suspension` are the initial one and those of the suspensions
handled. -/
def SuspensionsOwed (k : Kernel) : Prop :=
  k.waitingForSuspension + k.suspensionsUnderWay = 1 + k.ioThread.awaitingSuspension

/-- Each exit requested for the process is under way or handled. -/
def ExitsOwed (t : ℕ) (k : Kernel) : Prop :=
  k.exitsAnswered t = k.exitsRequested t

/-- `memory_init_q` is announced on its semaphore. -/
def InitOwed (k : Kernel) : Prop :=
  k.memoryInitQ.items.length =
    k.memoryInitQ.sem + k.toReadyThread.posting + k.memoryThread.popping

end Kernel

/-! ## A CPU that waits -/

namespace Cpu

variable {c c' : Cpu} {ports ports' : CpuPorts} {action : CpuAction}

end Cpu

namespace System

variable {cfg : KernelConfig} {s : System}

end System

/-! ## Threads that cannot move -/

namespace Kernel

variable {cfg : KernelConfig} {k : Kernel} {now : Word} {stale : ℕ → Pcb}

/-- No thread of the kernel can move, nor the memory module. -/
structure Blocked (cfg : KernelConfig) (k : Kernel) : Prop where
  console : ∀ i, k.console cfg i = none
  toReady : k.toReady cfg = none
  toExec : k.toExec 0 = none
  exitProcess : k.exitProcess = none
  dispatchListener : k.dispatchListener cfg 0 = none
  memoryListener : k.memoryListener default = none
  ioListener : k.ioListener cfg 0 = none
  memory : ∀ reply, k.memoryReplies inOrder reply = none

/-- A console thread never blocks inside `receive_process`. -/
theorem Blocked.consoles (h : k.Blocked cfg) : ∀ console ∈ k.consoles, console.2 = .idle := by
  intro ⟨socket, thread⟩ hmem
  obtain ⟨i, hi⟩ := List.mem_iff_getElem?.1 hmem
  have hnone := h.console i
  unfold Kernel.console at hnone
  rw [hi] at hnone
  cases thread <;> first | rfl | cases hnone

/-- The dispatch listener blocks on its socket only. -/
theorem Blocked.dispatch (h : k.Blocked cfg) : k.dispatchThread = .idle ∧ k.fromCpu = [] := by
  have hnone := h.dispatchListener
  unfold Kernel.dispatchListener at hnone
  repeat' split at hnone
  all_goals first
    | exact ⟨‹_›, ‹_›⟩
    | cases hnone

/-- Where no producer is between its push and its post, a chosen queue has a unit. -/
theorem Backed.wait_ne_none (hk : k.Backed) {q : WakeQueue} (hq : k.Takes q)
    (hput : k.putting q = 0) : (k.queue q).wait ≠ none := by
  intro hwait
  have := hk.putting_pos hq hwait
  omega

/-- What a queue whose unit has been taken gives. -/
theorem pop_ne_none {q : PQueue Job} (h : q.items ≠ []) : q.pop ≠ none := by
  unfold PQueue.pop
  split
  · exact absurd ‹_› h
  · exact nofun

/-- `exit_process` blocks on `to_exit` only. -/
theorem Blocked.exit (h : k.Blocked cfg) (hk : k.Backed) :
    k.exitProcessThread = .idle ∧ k.toExit = 0 := by
  have hnone := h.exitProcess
  have hput : k.putting .exitQ = 0 := by
    simp [putting, h.dispatch.1, DispatchListener.posting]
  unfold Kernel.exitProcess at hnone
  cases hat : k.exitProcessThread with
  | idle =>
      simp only [hat] at hnone
      split at hnone
      · exact ⟨rfl, ‹_›⟩
      · cases hnone
  | take =>
      simp only [hat] at hnone
      split at hnone
      · exact absurd ‹_› (hk.wait_ne_none (q := .exitQ) hat hput)
      · cases hnone
  | pop =>
      simp only [hat] at hnone
      split at hnone
      · exact absurd ‹_› (pop_ne_none (hk.items_ne_nil (q := .exitQ)
          (by rw [Chosen, hat]; rfl)))
      · cases hnone
  | send | push | post =>
      simp only [hat] at hnone
      cases hnone

/-- `put_to_ready` blocks on the mutex, or on the answer to its interruption. -/
theorem putToReady_blocked {goto : PutToReady → Kernel → Kernel} {leave : Kernel → Kernel}
    {state : PutToReady} (h : k.putToReady cfg goto leave state = none) :
    (∃ job, state = .lock job) ∧ k.executionMutex = true ∨ state = .await := by
  unfold putToReady at h
  cases state with
  | lock job =>
      simp only at h
      split at h
      · exact .inl ⟨⟨job, rfl⟩, ‹_›⟩
      · cases h
  | await => exact .inr rfl
  | post | test =>
      simp only at h
      split at h <;> cases h
  | push | interrupt | sort | unlock | signal => cases h

/-- `to_exec` blocks on `ready_for_exec`, on `cpu_free`, or on the mutex. -/
theorem Blocked.exec (h : k.Blocked cfg) (hk : k.Backed)
    (hputs : k.puts PutToReady.inside = 0) :
    k.toExecThread = .idle ∧ k.readyForExec = 0 ∨ k.toExecThread = .cpu ∧ k.cpuFree = 0 ∨
      k.toExecThread = .lock ∧ k.executionMutex = true := by
  have hnone := h.toExec
  have hput : k.putting .readyQ = 0 := by
    have hle : k.puts PutToReady.posting ≤ k.puts PutToReady.inside :=
      puts_le (fun state => by cases state <;> simp [PutToReady.posting, PutToReady.inside]) k
    simp only [putting, h.dispatch.1, DispatchListener.posting]
    omega
  unfold Kernel.toExec at hnone
  cases hat : k.toExecThread with
  | idle =>
      simp only [hat] at hnone
      split at hnone
      · exact .inl ⟨rfl, ‹_›⟩
      · cases hnone
  | cpu =>
      simp only [hat] at hnone
      split at hnone
      · exact .inr (.inl ⟨rfl, ‹_›⟩)
      · cases hnone
  | lock =>
      simp only [hat] at hnone
      split at hnone
      · exact .inr (.inr ⟨rfl, ‹_›⟩)
      · cases hnone
  | take =>
      simp only [hat] at hnone
      split at hnone
      · exact absurd ‹_› (hk.wait_ne_none (q := .readyQ) hat hput)
      · cases hnone
  | pop =>
      simp only [hat] at hnone
      split at hnone
      · exact absurd ‹_› (pop_ne_none (hk.items_ne_nil (q := .readyQ)
          (by rw [Chosen, hat]; rfl)))
      · cases hnone
  | send | stamp | unlock =>
      simp only [hat] at hnone
      cases hnone

/-- So nobody holds the mutex. -/
theorem Blocked.mutex (h : k.Blocked cfg) (hk : k.Backed) (hexclusive : k.Exclusive)
    (hputs : k.puts PutToReady.inside = 0) : k.executionMutex = false := by
  cases hmutex : k.executionMutex with
  | false => rfl
  | true =>
      rw [Exclusive, hputs, hmutex] at hexclusive
      rcases h.exec hk hputs with ⟨hat, -⟩ | ⟨hat, -⟩ | ⟨hat, -⟩ <;>
        simp [hat, ToExec.inside] at hexclusive

/-- With no request for pid 0 the memory module can answer the first. -/
theorem Blocked.toMemory (h : k.Blocked cfg) (hpids : ∀ request ∈ k.toMemory, request.pid ≠ 0) :
    k.toMemory = [] := by
  cases hto : k.toMemory with
  | nil => rfl
  | cons request rest =>
      have hanswered : ∃ reply, request.answeredBy reply = true := by
        cases request with
        | processNew serial pid size =>
            exact ⟨.processMemoryReady pid 0 0, by simp [Request.answeredBy]⟩
        | processSuspend => exact ⟨.processSuspensionReady, rfl⟩
        | processExit serial pid pageTable processFramesIndex =>
            exact ⟨.processExitReady serial pid, by simp [Request.answeredBy]⟩
      obtain ⟨reply, hreply⟩ := hanswered
      have hnone := h.memory reply
      have hpid : request.pid ≠ 0 := hpids request (by simp [hto])
      rw [Kernel.memoryReplies, hto, inOrder, if_neg hpid, if_pos hreply] at hnone
      cases hnone

/-- The memory listener blocks on its socket only: the PCB it takes from `memory_init_q` is
announced, or about to be. -/
theorem Blocked.listener (h : k.Blocked cfg) (hinit : k.InitOwed)
    (htaken : k.memoryThread.taking → k.memoryInitQ.items ≠ []) :
    k.memoryThread = .idle ∧ k.fromMemory = [] := by
  have hnone := h.memoryListener
  unfold Kernel.memoryListener at hnone
  cases hat : k.memoryThread with
  | idle =>
      simp only [hat] at hnone
      split at hnone
      · exact ⟨rfl, ‹_›⟩
      all_goals cases hnone
  | tableScan reply rest found =>
      cases rest <;> cases found <;> simp only [hat] at hnone
      all_goals repeat' split at hnone
      all_goals cases hnone
  | tableWait reply rest found =>
      simp only [hat] at hnone
      split at hnone
      case h_2 => cases hnone
      rename_i hwait
      have hpos := List.length_pos_of_ne_nil (htaken (by rw [hat]; rfl))
      have hsem : k.memoryInitQ.sem = 0 := by
        unfold PQueue.wait at hwait
        split at hwait <;> simp_all
      -- the unit is about to be posted
      have hpost : 0 < k.toReadyThread.posting := by
        simp only [InitOwed, hat, MemoryListener.popping] at hinit
        omega
      have htoReady := h.toReady
      unfold Kernel.toReady at htoReady
      cases hto : k.toReadyThread <;> simp_all [ToReady.posting]
  | tablePop reply rest found =>
      simp only [hat] at hnone
      split at hnone
      · exact absurd ‹_› (pop_ne_none (htaken (by rw [hat]; rfl)))
      · cases hnone
  | tableFind | tablePost | suspension | exitScan | exitPermit =>
      simp only [hat] at hnone
      cases hnone
  | exitAnswer =>
      simp only [hat] at hnone
      repeat' split at hnone
      all_goals cases hnone

/-- `io_listener` blocks on `process_for_IO` only: a suspension it waits for has been handled, and
the mutex is free. -/
theorem Blocked.io (h : k.Blocked cfg) (hk : k.Backed) (hmutex : k.executionMutex = false)
    (hanswered : k.puts PutToReady.awaiting = 0) (howed : k.SuspensionsOwed)
    (hnone : k.suspensionsUnderWay = 0) : k.ioThread = .idle ∧ k.processForIO = 0 := by
  have hio := h.ioListener
  have hput : k.putting .blockedQ = 0 := by
    simp [putting, h.dispatch.1, DispatchListener.posting]
  unfold Kernel.ioListener at hio
  cases hat : k.ioThread with
  | idle =>
      simp only [hat] at hio
      split at hio
      · exact ⟨rfl, ‹_›⟩
      · cases hio
  | takeBlocked =>
      simp only [hat] at hio
      split at hio
      · exact absurd ‹_› (hk.wait_ne_none (q := .blockedQ) hat hput)
      · cases hio
  | takeSuspended =>
      have hput' : k.putting .suspendedBlockQ = 0 := by
        simp [putting, hat, IoListener.posting]
      simp only [hat] at hio
      split at hio
      · exact absurd ‹_› (hk.wait_ne_none (q := .suspendedBlockQ) hat hput')
      · cases hio
  | popBlocked =>
      simp only [hat] at hio
      split at hio
      · exact absurd ‹_› (pop_ne_none (hk.items_ne_nil (q := .blockedQ)
          (by rw [Chosen, hat]; rfl)))
      · cases hio
  | popSuspended =>
      simp only [hat] at hio
      split at hio
      · exact absurd ‹_› (pop_ne_none (hk.items_ne_nil (q := .suspendedBlockQ)
          (by rw [Chosen, hat]; rfl)))
      · cases hio
  | awaitSuspension job =>
      simp only [SuspensionsOwed, hnone, hat, IoListener.awaitingSuspension] at howed
      simp only [hat] at hio
      split at hio
      · omega
      · cases hio
  | put state =>
      simp only [hat] at hio
      rcases putToReady_blocked hio with ⟨-, hheld⟩ | rfl
      · rw [hmutex] at hheld
        cases hheld
      · simp [puts, hat, IoListener.putting, PutToReady.awaiting] at hanswered
  | choose | stamp =>
      simp only [hat] at hio
      split at hio <;> cases hio
  | sendSuspend | pushSuspended | postSuspended | release | again | pushReady | postReady
    | signalReady =>
      simp only [hat] at hio
      cases hio

/-- `to_ready` blocks on `any_for_ready`, on a permit, or on the tables of a process. -/
theorem Blocked.ready (h : k.Blocked cfg) (hk : k.Backed) (hmutex : k.executionMutex = false)
    (hanswered : k.puts PutToReady.awaiting = 0) (hlistener : k.memoryThread = .idle)
    (hio : k.ioThread = .idle) :
    k.toReadyThread = .idle ∧ k.anyForReady = 0 ∨
      k.toReadyThread = .permit ∧ k.semMultiprogram = 0 ∨
      ∃ job, k.toReadyThread = .awaitTable job ∧ k.pcbTableReady = 0 := by
  have hnone := h.toReady
  have hput : k.putting .newQ = 0 := by
    refine weigh_eq_zero.2 fun console hmem => ?_
    rw [h.consoles console hmem]
    rfl
  have hput' : k.putting .suspendedReadyQ = 0 := by
    simp [putting, hio, IoListener.posting]
  unfold Kernel.toReady at hnone
  cases hat : k.toReadyThread with
  | idle =>
      simp only [hat] at hnone
      split at hnone
      · exact .inl ⟨rfl, ‹_›⟩
      · cases hnone
  | permit =>
      simp only [hat] at hnone
      split at hnone
      · exact .inr (.inl ⟨rfl, ‹_›⟩)
      · cases hnone
  | awaitTable job =>
      simp only [hat] at hnone
      split at hnone
      · exact .inr (.inr ⟨job, rfl, ‹_›⟩)
      · cases hnone
  | takeSuspended =>
      simp only [hat] at hnone
      split at hnone
      · exact absurd ‹_› (hk.wait_ne_none (q := .suspendedReadyQ) hat hput')
      · cases hnone
  | takeNew =>
      simp only [hat] at hnone
      split at hnone
      · exact absurd ‹_› (hk.wait_ne_none (q := .newQ) hat hput)
      · cases hnone
  | popSuspended =>
      simp only [hat] at hnone
      split at hnone
      · exact absurd ‹_› (pop_ne_none (hk.items_ne_nil (q := .suspendedReadyQ)
          (by rw [Chosen, hat]; rfl)))
      · cases hnone
  | popNew =>
      simp only [hat] at hnone
      split at hnone
      · exact absurd ‹_› (pop_ne_none (hk.items_ne_nil (q := .newQ) (by rw [Chosen, hat]; rfl)))
      · cases hnone
  | pushInit job =>
      simp only [hat, hlistener] at hnone
      cases hnone
  | put state =>
      simp only [hat] at hnone
      rcases putToReady_blocked hnone with ⟨-, hheld⟩ | rfl
      · rw [hmutex] at hheld
        cases hheld
      · simp [puts, hat, ToReady.putting, PutToReady.awaiting] at hanswered
  | choose | chooseNew =>
      simp only [hat] at hnone
      split at hnone <;> cases hnone
  | sendNew | postInit =>
      simp only [hat] at hnone
      cases hnone

end Kernel
/-! ## At rest -/

namespace System

variable {cfg : KernelConfig} {s : System}

/-- Everything is idle and empty, but for `to_ready`, which may wait for a permit, the queues it
takes from and `memory_exit_q`. -/
structure Idle (s : System) : Prop where
  consoles : ∀ console ∈ s.kernel.consoles, console.2 = .idle
  dispatch : s.kernel.dispatchThread = .idle ∧ s.kernel.fromCpu = []
  exit : s.kernel.exitProcessThread = .idle ∧ s.kernel.toExit = 0
  cpu : s.cpu.held = [] ∧ s.kernel.toCpu = []
  memory : s.kernel.toMemory = [] ∧ s.kernel.memoryThread = .idle ∧ s.kernel.fromMemory = []
  io : s.kernel.ioThread = .idle ∧ s.kernel.processForIO = 0
  ready : s.kernel.toReadyThread = .idle ∧ s.kernel.anyForReady = 0 ∨
    s.kernel.toReadyThread = .permit ∧ s.kernel.semMultiprogram = 0
  exec : s.kernel.toExecThread = .idle ∧ s.kernel.readyForExec = 0

/-- The queues whose consumers are idle are empty. -/
theorem Idle.queues (hidle : s.Idle) (hbacked : s.kernel.Backed) :
    s.kernel.readyQ.items = [] ∧ s.kernel.blockedQ.items = [] ∧
      s.kernel.suspendedBlockQ.items = [] ∧ s.kernel.exitQ.items = [] ∧
      (s.kernel.anyForReady + s.kernel.toReadyThread.choosing = 0 →
        s.kernel.newQ.items = [] ∧ s.kernel.suspendedReadyQ.items = []) := by
  obtain ⟨hconsoles, ⟨hdispatch, -⟩, ⟨hexit, htoExit⟩, -, -, ⟨hio, hforIo⟩, hready, hexec,
    hforExec⟩ := hidle
  have hputs : s.kernel.puts PutToReady.announcing = 0 := by
    rcases hready with ⟨hat, -⟩ | ⟨hat, -⟩ <;>
      simp [Kernel.puts, hat, hio, ToReady.putting, IoListener.putting]
  have hannouncing : consolesAnnouncing s.kernel.consoles = 0 := by
    refine weigh_eq_zero.2 fun console hmem => ?_
    rw [hconsoles console hmem]
    rfl
  have hreadyQ := hbacked.wakeUp .readyForExec
  have hblockedQ := hbacked.wakeUp .processForIo
  have hexitQ := hbacked.wakeUp .toExit
  have hnewQ := hbacked.wakeUp .anyForReady
  simp only [Kernel.wakeUp, Announcement.Balanced, hputs, hannouncing, hdispatch, hexit, hio, hexec,
    hforExec, hforIo, htoExit, DispatchListener.announcingReady, DispatchListener.announcingIo,
    DispatchListener.announcingExit, IoListener.announcingIo, IoListener.announcing,
    IoListener.choosing, ToExec.choosing, ExitProcess.choosing] at hreadyQ hblockedQ hexitQ hnewQ
  refine ⟨List.eq_nil_of_length_eq_zero (by omega), List.eq_nil_of_length_eq_zero (by omega),
    List.eq_nil_of_length_eq_zero (by omega), List.eq_nil_of_length_eq_zero (by omega),
    fun hnone => ⟨List.eq_nil_of_length_eq_zero (by omega),
      List.eq_nil_of_length_eq_zero (by omega)⟩⟩

/-- At rest the processes with a PCB in `memory_exit_q` are those whose release has been handled. -/
theorem Idle.released (hidle : s.Idle) {t : ℕ} (hexits : s.kernel.ExitsOwed t) :
    tally Job.serial t s.kernel.memoryExitQ.items =
      s.kernel.history.count (.exitHandled t) := by
  obtain ⟨-, -, ⟨hexit, -⟩, -, ⟨hto, hlistener, hfrom⟩, -, -, -⟩ := hidle
  simp only [Kernel.ExitsOwed, Kernel.exitsAnswered, Kernel.exitsRequested, hto, hlistener, hfrom,
    hexit, MemoryListener.exiting, ExitProcess.requested, tally_nil, List.count_nil] at hexits
  omega

/-- `to_ready` waits for no tables, and nothing is in `memory_init_q`. -/
theorem Idle.init (hidle : s.Idle) (htracked : s.kernel.TablesTracked) :
    s.kernel.memoryInitQ.items = [] ∧ s.kernel.toReadyThread.hands s.kernel.pcbTableReady = [] := by
  have hwaiting : s.kernel.toReadyThread.waiting = [] ∧
      s.kernel.toReadyThread.hands s.kernel.pcbTableReady = [] := by
    rcases hidle.ready with ⟨hat, -⟩ | ⟨hat, -⟩ <;> rw [hat] <;> exact ⟨rfl, rfl⟩
  refine ⟨?_, hwaiting.2⟩
  rcases htracked.queue with ⟨-, hqueue⟩ | ⟨-, -, hne⟩
  · rw [hwaiting.1] at hqueue
    exact (List.append_eq_nil_iff.1 hqueue).1
  · exact absurd hwaiting.1 hne

/-- At rest every permit is free. -/
theorem Idle.permits (hidle : s.Idle) (hbacked : s.kernel.Backed)
    (htracked : s.kernel.TablesTracked) (hexits : ∀ t, s.kernel.ExitsOwed t)
    (hpermits : s.kernel.Permits cfg s.toContract.countAtCpu) :
    s.kernel.semMultiprogram = cfg.multiprogrammingLevel := by
  obtain ⟨hreadyQ, hblockedQ, -, hexitQ, -⟩ := hidle.queues hbacked
  obtain ⟨hinitQ, hhands⟩ := hidle.init htracked
  have hnone : permitHolders s.kernel.history = [] := by
    refine List.eq_nil_iff_forall_not_mem.2 fun t hmem => ?_
    have hholders := hpermits.holders t
    have hreleased := hidle.released (hexits t)
    have hpos := List.count_pos_iff.2 hmem
    obtain ⟨-, ⟨hdispatch, hfrom⟩, ⟨hexit, -⟩, ⟨hheld, htoCpu⟩, ⟨-, hlistener, -⟩, ⟨hio, -⟩, -,
      ⟨hexec, -⟩⟩ := hidle
    simp only [Kernel.inMemory, Contract.countAtCpu, toContract, hhands, hinitQ, hlistener, hreadyQ,
      hexec, htoCpu, hfrom, hdispatch, hblockedQ, hio, hexitQ, hexit, hheld, MemoryListener.hands,
      ToExec.hands, DispatchListener.hands, IoListener.inMemory, ExitProcess.hands, List.map_nil,
      tally_nil, List.count_nil] at hholders
    omega
  have hbalance := hpermits.balance
  have hhand : s.kernel.toReadyThread.permitInHand = 0 := by
    rcases hidle.ready with ⟨hat, -⟩ | ⟨hat, -⟩ <;> rw [hat] <;> rfl
  rw [hnone, hhand] at hbalance
  simpa using hbalance

end System

end SistemasOperativos
