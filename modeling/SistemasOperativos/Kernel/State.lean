import SistemasOperativos.Library.SortBy
import SistemasOperativos.Shared.Pcb
import SistemasOperativos.Shared.PQueue
import Mathlib.Data.Rat.Floor

/-!
# The state of the kernel

The queues, semaphores and globals of `kernel/src/kernel.c`, the point each kernel thread has
reached, and the contents of the sockets between the kernel and its peers.

A thread's state names what it does next.  Between two states lies one statement that touches
data other threads can see; logging, packet construction and sleeping are left out.  A packet
is on its socket from its send to its receipt.
-/

namespace SistemasOperativos

/-! ## Configuration -/

/-- `enum e_sortingAlgorithm`. -/
inductive SortingAlgorithm
  | fifo | srt
deriving DecidableEq, Repr

/-- `SJF_sort`: the comparator of the ready queue. -/
def sjfSort (job₁ job₂ : Job) : Bool :=
  job₁.pcb.leftBurstEstimation.toInt ≤ job₂.pcb.leftBurstEstimation.toInt

theorem sjfSort_total (a b : Job) : sjfSort a b = true ∨ sjfSort b a = true := by
  simp only [sjfSort, decide_eq_true_eq]; omega

theorem sjfSort_trans (a b c : Job) (hab : sjfSort a b = true) (hbc : sjfSort b c = true) :
    sjfSort a c = true := by
  simp only [sjfSort, decide_eq_true_eq] at *; omega

/-- `t_kernel_config`, with the comparator sort (`list_sort`) of the library it is built on. -/
structure KernelConfig where
  sortingAlgorithm : SortingAlgorithm
  initialEstimate : Word
  alpha : ℚ
  multiprogrammingLevel : ℕ
  maxBlockedTime : Word
  listSort : SortBy sjfSort

@[simp] theorem KernelConfig.mem_sort {cfg : KernelConfig} {job : Job} {jobs : List Job} :
    job ∈ cfg.listSort.sort jobs ↔ job ∈ jobs :=
  (cfg.listSort.perm jobs).mem_iff

/-! ## Packets -/

/-- The headers under which the CPU sends a PCB back. -/
inductive KernelHeader
  | ioCall | exitCall | interruptDispatch
deriving DecidableEq, Repr

/-- The packets the kernel sends to the memory module.  `serial` is history only. -/
inductive Request
  | processNew (serial : ℕ) (pid size : Word)
  | processSuspend (serial : ℕ) (pid pageTable processFramesIndex : Word)
  | processExit (serial : ℕ) (pid pageTable processFramesIndex : Word)
deriving DecidableEq, Repr

/-- The packets the memory module sends back.  `serial` is history only. -/
inductive Reply
  | processMemoryReady (pid pageTable processFramesIndex : Word)
  | processSuspensionReady
  | processExitReady (serial : ℕ) (pid : Word)
deriving DecidableEq, Repr

/-- A memory module: which reply it may send next, given the requests it has not answered,
and the requests then left. -/
abbrev MemoryBehaviour := List Request → Reply → Option (List Request)

/-! ## Threads -/

/-- `put_to_ready`. -/
inductive PutToReady
  | lock (job : Job) | push (job : Job) | post | test | interrupt | await | sort | unlock | signal
deriving DecidableEq, Repr

/-- `to_ready`, with `suspended_to_ready` and `new_to_ready`. -/
inductive ToReady
  | idle | permit | choose | chooseNew
  | takeSuspended | popSuspended
  | takeNew | popNew | sendNew (job : Job)
  | pushInit (job : Job) | postInit (job : Job) | awaitTable (job : Job)
  | put (state : PutToReady)
deriving DecidableEq, Repr

/-- `to_exec`. -/
inductive ToExec
  | idle | cpu | lock | take | pop | send (job : Job) | stamp (serial : ℕ) | unlock
deriving DecidableEq, Repr

/-- `exit_process`. -/
inductive ExitProcess
  | idle | take | pop | send (job : Job) | push (job : Job) | post
deriving DecidableEq, Repr

/-- `cpu_dispatch_listener`, inside `handle_interruption`, `io_op` or `exit_op`. -/
inductive DispatchListener
  | idle
  | interrupted (job : Job) | interruptPush (job : Job) | interruptPost | interruptSignal
  | interruptFree | interruptReady
  | io (job : Job) | ioPush (job : Job) | ioPost | ioFree | ioSignal
  | exitPush (job : Job) | exitPost | exitSignal | exitFree
deriving DecidableEq, Repr

/-- The fields of a `PROCESS_MEMORY_READY` reply. -/
structure TableReply where
  pid : Word
  pageTable : Word
  processFramesIndex : Word
deriving DecidableEq, Repr

/-- `memory_listener`, inside `table_index_success`, `suspension_success` or
`exit_process_success`.  The first keeps the elements of `memory_init_q` still to be visited
and those it has taken from the queue. -/
inductive MemoryListener
  | idle
  | tableFind (reply : TableReply)
  | tableScan (reply : TableReply) (rest found : List Job)
  | tableWait (reply : TableReply) (rest found : List Job)
  | tablePop (reply : TableReply) (rest found : List Job)
  | tablePost (reply : TableReply) (found : List Job)
  | suspension
  | exitScan (serial : ℕ) (pid : Word)
  | exitAnswer (serial : ℕ) (console : Option (ℕ × Word))
  | exitPermit (serial : ℕ)
deriving DecidableEq, Repr

/-- `io_listener`. -/
inductive IoListener
  | idle | choose
  | takeBlocked | popBlocked | stamp (job : Job) | sendSuspend (job : Job)
  | awaitSuspension (job : Job) | pushSuspended (job : Job) | postSuspended (serial : ℕ)
  | release (serial : ℕ) | again
  | takeSuspended | popSuspended | pushReady (job : Job) | postReady | signalReady
  | put (state : PutToReady)
deriving DecidableEq, Repr

/-- A `packet_handler` thread serving a console, inside `receive_process`. -/
inductive ConsoleThread
  | idle | count (job : Job) | number (job : Job) | push (job : Job) | post | signal
deriving DecidableEq, Repr

/-! ## History -/

/-- What has happened, for statements about whole runs.  No step reads it. -/
inductive Event
  /-- `to_ready` moves a process under the permit it has taken. -/
  | permit (serial : ℕ)
  /-- `io_listener` gives the permit of a suspended process back. -/
  | suspended (serial : ℕ)
  /-- `to_exec` sends `PCB_TO_CPU`. -/
  | dispatched (serial : ℕ)
  /-- `to_exec` records `toExecTime`. -/
  | stamped (serial : ℕ) (toExecTime : Word)
  /-- The dispatch listener reads `toExecTime`. -/
  | measured (serial : ℕ) (toExecTime : Word)
  /-- The kernel receives `EXIT_CALL`. -/
  | exitReceived (serial : ℕ)
  /-- `exit_process` sends `PROCESS_EXIT`. -/
  | exitRequested (serial : ℕ)
  /-- `exit_process_success` sends `PROCESS_OK` to the console of this process. -/
  | processOk (serial : ℕ) (console : Word)
  /-- `exit_process_success` reads a PCB it has destroyed before. -/
  | readDestroyed (serial : ℕ)
  /-- `exit_process_success` has handled the `PROCESS_EXIT_READY` of this process. -/
  | exitHandled (serial : ℕ)
  /-- `table_index_success` has looked for the PCB of this pid. -/
  | tableHandled (pid : Word) (found : Bool)
  /-- `suspension_success` has handled a `PROCESS_SUSPENSION_READY`. -/
  | suspensionHandled
  /-- The CPU executes an instruction of this process. -/
  | executed (serial : ℕ) (instruction : Instruction)
  /-- The CPU sends the PCB of this process back. -/
  | answered (header : KernelHeader) (serial : ℕ)
deriving DecidableEq, Repr

/-! ## The kernel -/

/-- The shared data of the kernel, the state of its threads and the sockets to its peers. -/
structure Kernel where
  newQ : PQueue Job := {}
  readyQ : PQueue Job := {}
  memoryInitQ : PQueue Job := {}
  memoryExitQ : PQueue Job := {}
  blockedQ : PQueue Job := {}
  suspendedBlockQ : PQueue Job := {}
  suspendedReadyQ : PQueue Job := {}
  exitQ : PQueue Job := {}
  semMultiprogram : ℕ
  cpuFree : ℕ := 1
  interruptReady : ℕ := 0
  processForIO : ℕ := 0
  anyForReady : ℕ := 0
  readyForExec : ℕ := 0
  pcbTableReady : ℕ := 0
  toExit : ℕ := 0
  waitingForSuspension : ℕ := 1
  /-- `execution_mutex` is held. -/
  executionMutex : Bool := false
  pid : Word := 0
  toExecTime : Word := 0
  /-- The console threads, with the socket each serves. -/
  consoles : List (Word × ConsoleThread) := []
  toReadyThread : ToReady := .idle
  toExecThread : ToExec := .idle
  exitProcessThread : ExitProcess := .idle
  dispatchThread : DispatchListener := .idle
  memoryThread : MemoryListener := .idle
  ioThread : IoListener := .idle
  /-- `PCB_TO_CPU` packets the CPU has not read. -/
  toCpu : List Job := []
  /-- PCBs the CPU has sent back and the dispatch listener has not read. -/
  fromCpu : List (KernelHeader × Job) := []
  /-- `INTERRUPT` headers the CPU has not recorded. -/
  interrupts : ℕ := 0
  toMemory : List Request := []
  fromMemory : List Reply := []
  /-- The PCBs in `memory_exit_q` that `exit_process_success` has destroyed. -/
  destroyed : List ℕ := []
  /-- A destroyed PCB was destroyed again. -/
  crashed : Bool := false
  /-- The programs admitted so far; the position is the serial number. -/
  admitted : List (List Instruction) := []
  history : List Event := []

/-- `main`, up to the creation of the threads. -/
def Kernel.start (cfg : KernelConfig) : Kernel :=
  { semMultiprogram := cfg.multiprogrammingLevel }

end SistemasOperativos
