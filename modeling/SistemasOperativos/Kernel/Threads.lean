import SistemasOperativos.Kernel.State

/-!
# The threads of the kernel

One step of each thread of `kernel/src/kernel.c`, as a partial function of the kernel's state:
`none` where the thread is blocked.  Values a thread reads from outside (the clock, a packet)
are arguments.
-/

namespace SistemasOperativos

/-! ## Estimates and bursts -/

/-- Conversion of a `double` to `uint32_t`: truncation towards zero. -/
def truncate (q : ℚ) : Word :=
  BitVec.ofInt 32 (if 0 ≤ q then q.floor else q.ceil)

/-- What `handle_interruption` does to the PCB: the slice just executed is taken off the
remaining estimate. -/
def Pcb.chargeSlice (pcb : Pcb) (fromMs toMs : Word) : Pcb :=
  { pcb with leftBurstEstimation := pcb.leftBurstEstimation - (fromMs - toMs) }

/-- The burst `io_op` measures: `real`. -/
def Pcb.realBurst (pcb : Pcb) (fromMs toMs : Word) : Word :=
  pcb.burstEstimation - pcb.leftBurstEstimation + fromMs - toMs

/-- What `io_op` does to the PCB: the next estimate, and the time at which it blocked. -/
def Pcb.chargeBurst (cfg : KernelConfig) (pcb : Pcb) (fromMs toMs : Word) : Pcb :=
  let estimation := truncate (cfg.alpha * (pcb.realBurst fromMs toMs).toInt +
    (1 - cfg.alpha) * pcb.burstEstimation.toNat)
  { pcb with
    burstEstimation := estimation
    leftBurstEstimation := estimation
    blockedTime := fromMs }

/-- `sleep_ms` of `io_listener`: what is left of the time a process may stay blocked. -/
def Pcb.sleepMs (cfg : KernelConfig) (pcb : Pcb) (currTime : Word) : Word :=
  cfg.maxBlockedTime - (currTime - pcb.blockedTime)

/-- `remaining_io_time` of `io_listener`. -/
def Pcb.remainingIoTime (cfg : KernelConfig) (pcb : Pcb) (currTime : Word) : Word :=
  pcb.sleepMs cfg currTime - pcb.pendingIoTime

/-- The sleep at the limit: what was slept is taken off the pending I/O. -/
def Pcb.sleepToLimit (cfg : KernelConfig) (pcb : Pcb) (currTime : Word) : Pcb :=
  { pcb with pendingIoTime := pcb.pendingIoTime - pcb.sleepMs cfg currTime }

/-! ## Numbering -/

/-- The assignments of `receive_process` to the PCB, once the pid has been counted. -/
def Pcb.admit (cfg : KernelConfig) (pcb : Pcb) (pid socket : Word) : Pcb :=
  { pcb with
    pid := pid
    clientSocket := socket
    programCounter := 0
    burstEstimation := cfg.initialEstimate
    leftBurstEstimation := cfg.initialEstimate }

/-! ## The PCB `to_ready` shares with the memory listener -/

/-- The assignments of `table_index_success` to the PCB it found. -/
def Job.setTable (serial : ℕ) (reply : TableReply) (job : Job) : Job :=
  if job.serial = serial then
    { job with pcb :=
        { job.pcb with
          pageTable := reply.pageTable
          processFramesIndex := reply.processFramesIndex } }
  else job

@[simp] theorem Job.pid_setTable (serial : ℕ) (reply : TableReply) (job : Job) :
    (job.setTable serial reply).pcb.pid = job.pcb.pid := by
  unfold setTable
  split <;> rfl

@[simp] theorem Job.serial_setTable (serial : ℕ) (reply : TableReply) (job : Job) :
    (job.setTable serial reply).serial = job.serial := by
  unfold setTable
  split <;> rfl

/-- While `to_ready` waits for its table it holds a pointer to a PCB that is in
`memory_init_q`: an assignment through the queue changes both. -/
def ToReady.mapWaiting (f : Job → Job) : ToReady → ToReady
  | .postInit job => .postInit (f job)
  | .awaitTable job => .awaitTable (f job)
  | state => state

namespace Kernel

/-! ## `put_to_ready` -/

/-- One step of `put_to_ready`, called from the thread whose state `goto` sets and which
`leave` takes out of the call. -/
def putToReady (cfg : KernelConfig) (k : Kernel) (goto : PutToReady → Kernel → Kernel)
    (leave : Kernel → Kernel) : PutToReady → Option Kernel
  | .lock job =>
      if k.executionMutex then none
      else some (goto (.push job) { k with executionMutex := true })
  | .push job => some (goto .post { k with readyQ := k.readyQ.push job })
  | .post =>
      match cfg.sortingAlgorithm with
      | .fifo => some (goto .unlock { k with readyQ := k.readyQ.post })
      | .srt => some (goto .test { k with readyQ := k.readyQ.post })
  | .test =>
      match k.cpuFree with
      | 0 => some (goto .interrupt k)
      | _ + 1 => some (goto .sort k)
  | .interrupt => some (goto .await { k with interrupts := k.interrupts + 1 })
  | .await =>
      match k.interruptReady with
      | 0 => none
      | n + 1 => some (goto .sort { k with interruptReady := n })
  | .sort =>
      some (goto .unlock
        { k with readyQ := { k.readyQ with items := cfg.listSort.sort k.readyQ.items } })
  | .unlock => some (goto .signal { k with executionMutex := false })
  | .signal => some (leave { k with readyForExec := k.readyForExec + 1 })

/-! ## `to_ready` -/

/-- One step of `to_ready`, `suspended_to_ready` or `new_to_ready`. -/
def toReady (cfg : KernelConfig) (k : Kernel) : Option Kernel :=
  match k.toReadyThread with
  | .idle =>
      match k.anyForReady with
      | 0 => none
      | n + 1 => some { k with anyForReady := n, toReadyThread := .permit }
  | .permit =>
      match k.semMultiprogram with
      | 0 => none
      | n + 1 => some { k with semMultiprogram := n, toReadyThread := .choose }
  | .choose =>
      if k.suspendedReadyQ.isEmpty then some { k with toReadyThread := .chooseNew }
      else some { k with toReadyThread := .takeSuspended }
  | .chooseNew =>
      -- with both queues empty the loop starts over, and the permit taken stays taken
      if k.newQ.isEmpty then some { k with toReadyThread := .idle }
      else some { k with toReadyThread := .takeNew }
  | .takeSuspended =>
      match k.suspendedReadyQ.wait with
      | none => none
      | some q => some { k with suspendedReadyQ := q, toReadyThread := .popSuspended }
  | .popSuspended =>
      match k.suspendedReadyQ.pop with
      | none => none
      | some (job, q) =>
          some { k with
            suspendedReadyQ := q
            toReadyThread := .put (.lock job)
            history := k.history ++ [.permit job.serial] }
  | .takeNew =>
      match k.newQ.wait with
      | none => none
      | some q => some { k with newQ := q, toReadyThread := .popNew }
  | .popNew =>
      match k.newQ.pop with
      | none => none
      | some (job, q) =>
          some { k with
            newQ := q
            toReadyThread := .sendNew job
            history := k.history ++ [.permit job.serial] }
  | .sendNew job =>
      some { k with
        toMemory := k.toMemory ++ [.processNew job.serial job.pcb.pid job.pcb.size]
        toReadyThread := .pushInit job }
  | .pushInit job =>
      -- the iteration of `table_index_success` holds the queue's mutex
      match k.memoryThread with
      | .tableScan .. | .tableWait .. | .tablePop .. => none
      | _ => some { k with memoryInitQ := k.memoryInitQ.push job, toReadyThread := .postInit job }
  | .postInit job =>
      some { k with memoryInitQ := k.memoryInitQ.post, toReadyThread := .awaitTable job }
  | .awaitTable job =>
      match k.pcbTableReady with
      | 0 => none
      | n + 1 => some { k with pcbTableReady := n, toReadyThread := .put (.lock job) }
  | .put state =>
      k.putToReady cfg (fun state k => { k with toReadyThread := .put state })
        (fun k => { k with toReadyThread := .idle }) state

/-! ## `to_exec` -/

/-- One step of `to_exec`.  `now` is what `gettimeofday` gives. -/
def toExec (k : Kernel) (now : Word) : Option Kernel :=
  match k.toExecThread with
  | .idle =>
      match k.readyForExec with
      | 0 => none
      | n + 1 => some { k with readyForExec := n, toExecThread := .cpu }
  | .cpu =>
      match k.cpuFree with
      | 0 => none
      | n + 1 => some { k with cpuFree := n, toExecThread := .lock }
  | .lock =>
      if k.executionMutex then none
      else some { k with executionMutex := true, toExecThread := .take }
  | .take =>
      match k.readyQ.wait with
      | none => none
      | some q => some { k with readyQ := q, toExecThread := .pop }
  | .pop =>
      match k.readyQ.pop with
      | none => none
      | some (job, q) => some { k with readyQ := q, toExecThread := .send job }
  | .send job =>
      some { k with
        toCpu := k.toCpu ++ [job]
        toExecThread := .stamp job.serial
        history := k.history ++ [.dispatched job.serial] }
  | .stamp serial =>
      some { k with
        toExecTime := now
        toExecThread := .unlock
        history := k.history ++ [.stamped serial now] }
  | .unlock => some { k with executionMutex := false, toExecThread := .idle }

/-! ## `exit_process` -/

/-- One step of `exit_process`. -/
def exitProcess (k : Kernel) : Option Kernel :=
  match k.exitProcessThread with
  | .idle =>
      match k.toExit with
      | 0 => none
      | n + 1 => some { k with toExit := n, exitProcessThread := .take }
  | .take =>
      match k.exitQ.wait with
      | none => none
      | some q => some { k with exitQ := q, exitProcessThread := .pop }
  | .pop =>
      match k.exitQ.pop with
      | none => none
      | some (job, q) => some { k with exitQ := q, exitProcessThread := .send job }
  | .send job =>
      some { k with
        toMemory := k.toMemory ++
          [.processExit job.serial job.pcb.pid job.pcb.pageTable job.pcb.processFramesIndex]
        exitProcessThread := .push job
        history := k.history ++ [.exitRequested job.serial] }
  | .push job => some { k with memoryExitQ := k.memoryExitQ.push job, exitProcessThread := .post }
  | .post => some { k with memoryExitQ := k.memoryExitQ.post, exitProcessThread := .idle }

/-! ## `cpu_dispatch_listener` -/

/-- One step of `cpu_dispatch_listener`: the receipt of a packet, or the next statement of
`handle_interruption`, `io_op` or `exit_op`. -/
def dispatchListener (cfg : KernelConfig) (k : Kernel) (now : Word) : Option Kernel :=
  match k.dispatchThread with
  | .idle =>
      match k.fromCpu with
      | [] => none
      | (.interruptDispatch, job) :: rest =>
          some { k with fromCpu := rest, dispatchThread := .interrupted job }
      | (.ioCall, job) :: rest => some { k with fromCpu := rest, dispatchThread := .io job }
      | (.exitCall, job) :: rest =>
          some { k with
            fromCpu := rest
            dispatchThread := .exitPush job
            history := k.history ++ [.exitReceived job.serial] }
  | .interrupted job =>
      some { k with
        dispatchThread :=
          .interruptPush { job with pcb := job.pcb.chargeSlice now k.toExecTime }
        history := k.history ++ [.measured job.serial k.toExecTime] }
  | .interruptPush job =>
      some { k with readyQ := k.readyQ.push job, dispatchThread := .interruptPost }
  | .interruptPost => some { k with readyQ := k.readyQ.post, dispatchThread := .interruptSignal }
  | .interruptSignal =>
      some { k with readyForExec := k.readyForExec + 1, dispatchThread := .interruptFree }
  | .interruptFree => some { k with cpuFree := k.cpuFree + 1, dispatchThread := .interruptReady }
  | .interruptReady =>
      some { k with interruptReady := k.interruptReady + 1, dispatchThread := .idle }
  | .io job =>
      some { k with
        dispatchThread := .ioPush { job with pcb := job.pcb.chargeBurst cfg now k.toExecTime }
        history := k.history ++ [.measured job.serial k.toExecTime] }
  | .ioPush job => some { k with blockedQ := k.blockedQ.push job, dispatchThread := .ioPost }
  | .ioPost => some { k with blockedQ := k.blockedQ.post, dispatchThread := .ioFree }
  | .ioFree => some { k with cpuFree := k.cpuFree + 1, dispatchThread := .ioSignal }
  | .ioSignal => some { k with processForIO := k.processForIO + 1, dispatchThread := .idle }
  | .exitPush job => some { k with exitQ := k.exitQ.push job, dispatchThread := .exitPost }
  | .exitPost => some { k with exitQ := k.exitQ.post, dispatchThread := .exitSignal }
  | .exitSignal => some { k with toExit := k.toExit + 1, dispatchThread := .exitFree }
  | .exitFree => some { k with cpuFree := k.cpuFree + 1, dispatchThread := .idle }

/-! ## `memory_listener` -/

/-- `table_index_success` assigns to the PCB it found. -/
def setTable (k : Kernel) (serial : ℕ) (reply : TableReply) : Kernel :=
  { k with
    memoryInitQ :=
      { k.memoryInitQ with items := k.memoryInitQ.items.map (Job.setTable serial reply) }
    toReadyThread := k.toReadyThread.mapWaiting (Job.setTable serial reply) }

/-- The iteration of `exit_process_success` over `memory_exit_q`. -/
structure ExitScan where
  destroyed : List ℕ
  /-- The last PCB that matched, and its `client_socket`. -/
  console : Option (ℕ × Word)
  crashed : Bool
  history : List Event
deriving DecidableEq, Repr

/-- One PCB visited.  The fields of a destroyed PCB are whatever its block of memory now
holds; a match there destroys it a second time. -/
def ExitScan.visit (pid : Word) (stale : ℕ → Pcb) (scan : ExitScan) (job : Job) : ExitScan :=
  if job.serial ∈ scan.destroyed then
    { scan with
      crashed := scan.crashed || decide ((stale job.serial).pid = pid)
      history := scan.history ++ [.readDestroyed job.serial] }
  else if job.pcb.pid = pid then
    { scan with
      destroyed := job.serial :: scan.destroyed
      console := some (job.serial, job.pcb.clientSocket) }
  else scan

/-- One step of `memory_listener`: the receipt of a packet, or the next statement of
`table_index_success`, `suspension_success` or `exit_process_success`. -/
def memoryListener (k : Kernel) (stale : ℕ → Pcb) : Option Kernel :=
  match k.memoryThread with
  | .idle =>
      match k.fromMemory with
      | [] => none
      | .processMemoryReady pid pageTable processFramesIndex :: rest =>
          some { k with
            fromMemory := rest
            memoryThread := .tableFind ⟨pid, pageTable, processFramesIndex⟩ }
      | .processSuspensionReady :: rest =>
          some { k with fromMemory := rest, memoryThread := .suspension }
      | .processExitReady serial pid :: rest =>
          some { k with fromMemory := rest, memoryThread := .exitScan serial pid }
  | .tableFind reply => some { k with memoryThread := .tableScan reply k.memoryInitQ.items [] }
  | .tableScan reply [] found =>
      match found with
      | [] =>
          -- `terminate_kernel(true)` falls through its switch: the listener goes on
          some { k with
            memoryThread := .idle
            history := k.history ++ [.tableHandled reply.pid false] }
      | _ :: _ => some { k with memoryThread := .tablePost reply found }
  | .tableScan reply (job :: rest) found =>
      if job.pcb.pid = reply.pid then
        some { k.setTable job.serial reply with memoryThread := .tableWait reply rest found }
      else some { k with memoryThread := .tableScan reply rest found }
  | .tableWait reply rest found =>
      match k.memoryInitQ.wait with
      | none => none
      | some q => some { k with memoryInitQ := q, memoryThread := .tablePop reply rest found }
  | .tablePop reply rest found =>
      match k.memoryInitQ.pop with
      | none => none
      | some (job, q) =>
          some { k with
            memoryInitQ := q
            memoryThread := .tableScan reply rest (found ++ [job]) }
  | .tablePost reply _ =>
      some { k with
        pcbTableReady := k.pcbTableReady + 1
        memoryThread := .idle
        history := k.history ++ [.tableHandled reply.pid true] }
  | .suspension =>
      some { k with
        waitingForSuspension := k.waitingForSuspension + 1
        memoryThread := .idle
        history := k.history ++ [.suspensionHandled] }
  | .exitScan serial pid =>
      let scan := k.memoryExitQ.items.foldl (ExitScan.visit pid stale)
        ⟨k.destroyed, none, false, k.history⟩
      some { k with
        destroyed := scan.destroyed
        crashed := scan.crashed
        memoryThread := .exitAnswer serial scan.console
        history := scan.history }
  | .exitAnswer serial console =>
      match console with
      | some (owner, socket) =>
          if socket = 0 then some { k with memoryThread := .exitPermit serial }
          else
            some { k with
              memoryThread := .exitPermit serial
              history := k.history ++ [.processOk owner socket] }
      | none => some { k with memoryThread := .exitPermit serial }
  | .exitPermit serial =>
      some { k with
        semMultiprogram := k.semMultiprogram + 1
        memoryThread := .idle
        history := k.history ++ [.exitHandled serial] }

/-! ## `io_listener` -/

/-- One step of `io_listener`.  `now` is what `gettimeofday` gives. -/
def ioListener (cfg : KernelConfig) (k : Kernel) (now : Word) : Option Kernel :=
  match k.ioThread with
  | .idle =>
      match k.processForIO with
      | 0 => none
      | n + 1 => some { k with processForIO := n, ioThread := .choose }
  | .choose =>
      if k.blockedQ.isEmpty then some { k with ioThread := .takeSuspended }
      else some { k with ioThread := .takeBlocked }
  | .takeBlocked =>
      match k.blockedQ.wait with
      | none => none
      | some q => some { k with blockedQ := q, ioThread := .popBlocked }
  | .popBlocked =>
      match k.blockedQ.pop with
      | none => none
      | some (job, q) => some { k with blockedQ := q, ioThread := .stamp job }
  | .stamp job =>
      if 0 ≤ (job.pcb.remainingIoTime cfg now).toInt then
        some { k with ioThread := .put (.lock job) }
      else
        some { k with ioThread := .sendSuspend { job with pcb := job.pcb.sleepToLimit cfg now } }
  | .sendSuspend job =>
      some { k with
        toMemory := k.toMemory ++
          [.processSuspend job.serial job.pcb.pid job.pcb.pageTable job.pcb.processFramesIndex]
        ioThread := .awaitSuspension job }
  | .awaitSuspension job =>
      match k.waitingForSuspension with
      | 0 => none
      | n + 1 => some { k with waitingForSuspension := n, ioThread := .pushSuspended job }
  | .pushSuspended job =>
      some { k with
        suspendedBlockQ := k.suspendedBlockQ.push job
        ioThread := .postSuspended job.serial }
  | .postSuspended serial =>
      some { k with suspendedBlockQ := k.suspendedBlockQ.post, ioThread := .release serial }
  | .release serial =>
      some { k with
        semMultiprogram := k.semMultiprogram + 1
        ioThread := .again
        history := k.history ++ [.suspended serial] }
  | .again => some { k with processForIO := k.processForIO + 1, ioThread := .idle }
  | .takeSuspended =>
      match k.suspendedBlockQ.wait with
      | none => none
      | some q => some { k with suspendedBlockQ := q, ioThread := .popSuspended }
  | .popSuspended =>
      match k.suspendedBlockQ.pop with
      | none => none
      | some (job, q) => some { k with suspendedBlockQ := q, ioThread := .pushReady job }
  | .pushReady job =>
      some { k with suspendedReadyQ := k.suspendedReadyQ.push job, ioThread := .postReady }
  | .postReady => some { k with suspendedReadyQ := k.suspendedReadyQ.post, ioThread := .signalReady }
  | .signalReady => some { k with anyForReady := k.anyForReady + 1, ioThread := .idle }
  | .put state =>
      k.putToReady cfg (fun state k => { k with ioThread := .put state })
        (fun k => { k with ioThread := .idle }) state

/-! ## Consoles -/

/-- `server_listen` accepts a console. -/
def consoleAccept (k : Kernel) (socket : Word) : Option Kernel :=
  some { k with consoles := k.consoles ++ [(socket, .idle)] }

/-- Console thread `i` receives `NEW_PROCESS`.  `blank` is what the block that `create_pcb`
allocates holds. -/
def consoleReceive (k : Kernel) (i : ℕ) (size : Word) (instructions : List Instruction)
    (blank : Pcb) : Option Kernel :=
  match k.consoles[i]? with
  | some (socket, .idle) =>
      let job := ⟨k.admitted.length, { blank with instructions := instructions, size := size }⟩
      some { k with
        consoles := k.consoles.set i (socket, .count job)
        admitted := k.admitted ++ [instructions] }
  | _ => none

/-- The next statement of `receive_process` in console thread `i`. -/
def console (cfg : KernelConfig) (k : Kernel) (i : ℕ) : Option Kernel :=
  match k.consoles[i]? with
  | some (socket, .count job) =>
      some { k with pid := k.pid + 1, consoles := k.consoles.set i (socket, .number job) }
  | some (socket, .number job) =>
      let job := { job with pcb := Pcb.admit cfg job.pcb k.pid socket }
      some { k with consoles := k.consoles.set i (socket, .push job) }
  | some (socket, .push job) =>
      some { k with newQ := k.newQ.push job, consoles := k.consoles.set i (socket, .post) }
  | some (socket, .post) =>
      some { k with newQ := k.newQ.post, consoles := k.consoles.set i (socket, .signal) }
  | some (socket, .signal) =>
      some { k with
        anyForReady := k.anyForReady + 1
        consoles := k.consoles.set i (socket, .idle) }
  | _ => none

/-! ## The memory module -/

/-- The memory module sends a reply. -/
def memoryReplies (behaviour : MemoryBehaviour) (k : Kernel) (reply : Reply) : Option Kernel :=
  match behaviour k.toMemory reply with
  | none => none
  | some rest => some { k with toMemory := rest, fromMemory := k.fromMemory ++ [reply] }

end Kernel

/-! ## One step of the kernel -/

/-- A thread of the kernel, or the memory module, moves. -/
inductive KernelAction
  | consoleAccept (socket : Word)
  | consoleReceive (i : ℕ) (size : Word) (instructions : List Instruction) (blank : Pcb)
  | console (i : ℕ)
  | toReady
  | toExec (now : Word)
  | exitProcess
  | dispatchListener (now : Word)
  | memoryListener (stale : ℕ → Pcb)
  | ioListener (now : Word)
  | memory (reply : Reply)

/-- The kernel after one action.  A crashed kernel takes none. -/
def Kernel.step (cfg : KernelConfig) (behaviour : MemoryBehaviour) (k : Kernel)
    (action : KernelAction) : Option Kernel :=
  if k.crashed then none
  else
    match action with
    | .consoleAccept socket => k.consoleAccept socket
    | .consoleReceive i size instructions blank => k.consoleReceive i size instructions blank
    | .console i => k.console cfg i
    | .toReady => k.toReady cfg
    | .toExec now => k.toExec now
    | .exitProcess => k.exitProcess
    | .dispatchListener now => k.dispatchListener cfg now
    | .memoryListener stale => k.memoryListener stale
    | .ioListener now => k.ioListener cfg now
    | .memory reply => k.memoryReplies behaviour reply

end SistemasOperativos
